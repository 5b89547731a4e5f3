import NesConsole.Cartridge.Basic

/-! Which images are accepted, and what of them counts. Section sizes and the board are numbers in
the first ten bytes; the first thing that is wrong names the refusal, and bytes past the end of the
pattern section are never looked at. -/
namespace NesConsole
namespace Image
variable (b : Array UInt8)

def byte (i : Nat) : Nat := (b[i]?.getD 0).toNat

def Signed : Prop :=
  b[0]? = some 0x4E ∧ b[1]? = some 0x45 ∧ b[2]? = some 0x53 ∧ b[3]? = some 0x1A

instance : Decidable (Signed b) := inferInstanceAs (Decidable (_ ∧ _))

def hasTrainer : Bool := (byte b 6).testBit 2

/-- The mark of the second version: the digit `2` in bits 2 and 3 of byte 7. -/
def isVersion2 : Bool := byte b 7 / 4 % 4 == 2

def widening (digit : Nat) : Nat := if isVersion2 b ∧ digit ≠ 15 then 256 * digit else 0

def programBanks : Nat := byte b 4 + widening b (byte b 9 % 16)
def patternBanks : Nat := byte b 5 + widening b (byte b 9 / 16)

def mapperNumber : Nat :=
  byte b 6 / 16 + 16 * (byte b 7 / 16) + if isVersion2 b then 256 * (byte b 8 % 16) else 0

def programStart : Nat := if hasTrainer b then 528 else 16
def programEnd : Nat := programStart b + 0x4000 * programBanks b
def patternEnd : Nat := programEnd b + 0x2000 * patternBanks b

/-- The first thing that is wrong with an image, if anything is. -/
def refusal? : Option LoadError :=
  if b.size < 16 then some (.headerTooShort b.size)
  else if ¬Signed b then some .badMagic
  else if hasTrainer b ∧ b.size < 528 then some (.truncated .trainer 528 b.size)
  else if programBanks b = 0 then some (.truncated .program 1 0)
  else if b.size < programEnd b then
    some (.truncated .program (0x4000 * programBanks b) (b.size - programStart b))
  else if b.size < patternEnd b then
    some (.truncated .patterns (0x2000 * patternBanks b) (b.size - programEnd b))
  else if 2 < mapperNumber b then some (.unsupportedMapper (mapperNumber b))
  else none

def header : Header where
  programBanks := programBanks b
  patternBanks := patternBanks b
  mapper := mapperNumber b
  submapper := if isVersion2 b then byte b 8 / 16 else 0
  mirroring := if (byte b 6).testBit 3 then .fourScreen
    else if (byte b 6).testBit 0 then .vertical else .horizontal
  battery := (byte b 6).testBit 1
  trainer := hasTrainer b
  version2 := isVersion2 b

def board : Board where
  program := ⟨b.extract (programStart b) (programEnd b)⟩
  patterns := .ofRom (b.extract (programEnd b) (patternEnd b))
  mapper := (Mapper.ofNumber? (mapperNumber b)).getD .nrom

def cartridge (path : Option String) (d : Disk) : Cartridge × List CartridgeEvent :=
  let (work, events) := Cartridge.workRamOf (header b) (board b) path d
  (⟨header b, board b, work, path⟩,
    events ++ [.loaded (header b) (board b).patterns.writable])

/-! ### Reading the header -/

theorem byte_eq {i : Nat} (h : i < b.size) : byte b i = b[i].toNat := by
  simp [byte, h]

theorem signed_iff (h : 16 ≤ b.size) : Signed b ↔ b.extract 0 4 = Header.magic := by
  obtain ⟨l⟩ := b
  match l with
  | [] | [_] | [_, _] | [_, _, _] => simp at h
  | x :: y :: z :: w :: rest => simp [Signed, Header.magic]

theorem widened_eq (low digit : Nat) :
    (if isVersion2 b then Header.widened low digit else low) = low + widening b digit := by
  by_cases hv : isVersion2 b <;> by_cases hd : digit = 15 <;>
    simp [widening, Header.widened, hv, hd]
  omega

/-- An image of sixteen bytes and more that is signed has a header, and no other has one. -/
theorem parse_eq : Header.parse b =
    if b.size < 16 then .error (.headerTooShort b.size)
    else if ¬Signed b then .error .badMagic else .ok (header b) := by
  by_cases hsize : b.size < 16
  · simp [Header.parse, hsize]
  · by_cases hsigned : Signed b
    · have hmagic := (signed_iff b (by omega)).1 hsigned
      have hversion : (byte b 7 / 4 % 4 == 2) = isVersion2 b := rfl
      rw [Header.parse, dif_neg hsize, hmagic, if_neg hsize, if_neg (not_not_intro hsigned)]
      simp only [bne_self_eq_false, Bool.false_eq_true, if_false,
        ← byte_eq b (show 4 < b.size by omega), ← byte_eq b (show 5 < b.size by omega),
        ← byte_eq b (show 6 < b.size by omega), ← byte_eq b (show 7 < b.size by omega),
        ← byte_eq b (show 8 < b.size by omega), ← byte_eq b (show 9 < b.size by omega), hversion,
        widened_eq, hasBit, Header.wiring, header, programBanks, patternBanks,
        mapperNumber, hasTrainer]
      congr 2
      split <;> omega
    · have hmagic : b.extract 0 4 ≠ Header.magic := fun h =>
        hsigned ((signed_iff b (by omega)).2 h)
      simp [Header.parse, hsize, hsigned, hmagic]

/-! ### What is wrong with an image -/

theorem start_header : (header b).programStart = programStart b := by
  unfold Header.programStart programStart header
  dsimp only
  cases hasTrainer b <;> rfl

theorem middle_header : (header b).patternStart = programEnd b := by
  rw [Header.patternStart, start_header, programEnd, Nat.mul_comm]
  rfl

theorem end_header : (header b).imageEnd = patternEnd b := by
  rw [Header.imageEnd, middle_header, patternEnd, Nat.mul_comm]
  rfl

theorem ofNumber?_eq (n : Nat) : Mapper.ofNumber? n =
    if 2 < n then none else some ((Mapper.ofNumber? n).getD .nrom) := by
  match n with
  | 0 | 1 | 2 | n + 3 => simp [Mapper.ofNumber?]

/-- The trainer is missing exactly where the program section would begin past the end. -/
theorem trainer_iff : ((header b).trainer && decide (b.size < programStart b)) = true ↔
    hasTrainer b = true ∧ b.size < 528 := by
  change (hasTrainer b && decide (b.size < programStart b)) = true ↔ _
  cases ht : hasTrainer b <;> simp [programStart, ht]

/-- The board of a signed image, unless something is wrong with its sections. -/
theorem boardOf_eq (hsize : ¬b.size < 16) (hsigned : Signed b) :
    Cartridge.boardOf (header b) b = (refusal? b).elim (.ok (board b)) .error := by
  have hprogram : (header b).programLength = 0x4000 * programBanks b := Nat.mul_comm ..
  have hpatterns : (header b).patternLength = 0x2000 * patternBanks b := Nat.mul_comm ..
  have hbanks : (header b).programBanks = programBanks b := rfl
  have hnumber : (header b).mapper = mapperNumber b := rfl
  have hmapper := ofNumber?_eq (mapperNumber b)
  unfold Cartridge.boardOf refusal?
  simp only [hbanks, hnumber, start_header, middle_header, end_header, hprogram, hpatterns,
    if_neg hsize,
    if_neg (not_not_intro hsigned), apply_ite (Option.elim · (Except.ok (board b)) Except.error),
    Option.elim_some, Option.elim_none, trainer_iff]
  by_cases htrainer : hasTrainer b = true ∧ b.size < 528
  · have hstart : programStart b = 528 := if_pos htrainer.1
    rw [if_pos htrainer, if_pos htrainer, hstart]
  · rw [if_neg htrainer, if_neg htrainer, hmapper]
    by_cases hlarge : 2 < mapperNumber b
    · simp only [if_pos hlarge]
    · simp only [if_neg hlarge]
      rfl

/-- Loading an image comes to its cartridge, or to the first thing that is wrong with it. -/
theorem ofImage_eq (path : Option String) (d : Disk) : Cartridge.ofImage b path d =
    (refusal? b).elim (.ok (cartridge b path d)) .error := by
  unfold Cartridge.ofImage
  rw [parse_eq]
  by_cases hsize : b.size < 16
  · simp [refusal?, hsize, bind, Except.bind]
  · by_cases hsigned : Signed b
    · simp only [if_neg hsize, not_not_intro hsigned, if_false, bind, Except.bind,
        boardOf_eq b hsize hsigned]
      cases refusal? b <;> rfl
    · simp [refusal?, hsize, hsigned, bind, Except.bind]

/-! ### What counts -/

structure WellFormed : Prop where
  signed : Signed b
  banks : 0 < programBanks b
  board : mapperNumber b ≤ 2
  whole : patternEnd b ≤ b.size

theorem programStart_ge : 16 ≤ programStart b ∧ (hasTrainer b = true → 528 ≤ programStart b) := by
  unfold programStart
  cases hasTrainer b <;> simp

theorem ite_some_eq_none_iff {α : Type} {p : Prop} [Decidable p] {a : α} {r : Option α} :
    (if p then some a else r) = none ↔ ¬p ∧ r = none := by
  by_cases hp : p <;> simp [hp]

theorem refusal?_eq_none_iff : refusal? b = none ↔ WellFormed b := by
  obtain ⟨hstart, htrainer⟩ := programStart_ge b
  have hprogram : programStart b ≤ programEnd b := Nat.le_add_right ..
  have hpatterns : programEnd b ≤ patternEnd b := Nat.le_add_right ..
  simp only [refusal?, ite_some_eq_none_iff, Decidable.not_not, and_true]
  constructor
  · intro ⟨_, hsigned, _, hbanks, _, hwhole, hboard⟩
    exact ⟨hsigned, by omega, by omega, by omega⟩
  · intro ⟨hsigned, hbanks, hboard, hwhole⟩
    have htrained : ¬(hasTrainer b = true ∧ b.size < 528) := fun ⟨ht, hlt⟩ => by
      have := htrainer ht
      omega
    exact ⟨by omega, hsigned, htrained, by omega, by omega, by omega, by omega⟩

/-- What is accepted is well formed, and gives its cartridge. -/
theorem wellFormed_of_ofImage {b : Array UInt8} {path : Option String} {d : Disk}
    {r : Cartridge × List CartridgeEvent} (h : Cartridge.ofImage b path d = .ok r) :
    WellFormed b ∧ r = cartridge b path d := by
  rw [Image.ofImage_eq] at h
  cases hnone : refusal? b with
  | some e =>
    rw [hnone] at h
    cases h
  | none =>
    rw [hnone] at h
    exact ⟨(refusal?_eq_none_iff b).1 hnone, (Except.ok.inj h).symm⟩

theorem WellFormed.ofImage_eq {b : Array UInt8} (h : WellFormed b) (path : Option String)
    (d : Disk) : Cartridge.ofImage b path d =
      .ok ((cartridge b path d).1, (cartridge b path d).2) := by
  rw [Image.ofImage_eq, (refusal?_eq_none_iff b).2 h]
  rfl

variable {b} {b' : Array UInt8}

/-- The header is in the first sixteen bytes. -/
theorem header_congr (h : ∀ i < 16, b'[i]? = b[i]?) : header b' = header b := by
  have hbyte (i : Nat) (hi : i < 16) : byte b' i = byte b i := by rw [byte, byte, h i hi]
  have hversion : isVersion2 b' = isVersion2 b := by
    rw [isVersion2, isVersion2, hbyte 7 (by decide)]
  have hwidening (digit : Nat) : widening b' digit = widening b digit := by
    rw [widening, widening, hversion]
  simp only [header, programBanks, patternBanks, mapperNumber, hasTrainer, hwidening, hversion,
    hbyte 4 (by decide), hbyte 5 (by decide), hbyte 6 (by decide), hbyte 7 (by decide),
    hbyte 8 (by decide), hbyte 9 (by decide)]

theorem signed_congr (h : ∀ i < 16, b'[i]? = b[i]?) : Signed b' ↔ Signed b := by
  simp only [Signed, h 0 (by decide), h 1 (by decide), h 2 (by decide), h 3 (by decide)]

theorem getElem?_extract_eq {α : Type} (a : Array α) (start stop i : Nat) :
    (a.extract start stop)[i]? = if start + i < stop then a[start + i]? else none := by
  rw [Array.getElem?_extract]
  by_cases hstop : start + i < stop
  · by_cases hsize : start + i < a.size
    · rw [if_pos (by omega), if_pos hstop]
    · rw [if_neg (by omega), if_pos hstop, Array.getElem?_eq_none (by omega)]
  · rw [if_neg (by omega), if_neg hstop]

theorem extract_congr {start stop : Nat} (h : ∀ i < stop, b'[i]? = b[i]?) :
    b'.extract start stop = b.extract start stop := by
  apply Array.ext_getElem?
  intro i
  rw [getElem?_extract_eq, getElem?_extract_eq]
  by_cases hi : start + i < stop
  · rw [if_pos hi, if_pos hi, h _ hi]
  · rw [if_neg hi, if_neg hi]

theorem counts_congr (h : header b' = header b) : programBanks b' = programBanks b ∧
    patternBanks b' = patternBanks b ∧ mapperNumber b' = mapperNumber b :=
  ⟨congrArg Header.programBanks h, congrArg Header.patternBanks h, congrArg Header.mapper h⟩

/-- The sections begin and end where the header says. -/
theorem bounds_congr (h : header b' = header b) : programStart b' = programStart b ∧
    programEnd b' = programEnd b ∧ patternEnd b' = patternEnd b := by
  rw [← start_header, ← start_header, ← middle_header, ← middle_header, ← end_header,
    ← end_header, h]
  exact ⟨rfl, rfl, rfl⟩

theorem patternEnd_ge : 16 ≤ patternEnd b :=
  calc 16 ≤ programStart b := (programStart_ge b).1
    _ ≤ programEnd b := Nat.le_add_right ..
    _ ≤ patternEnd b := Nat.le_add_right ..

/-- Bytes past the pattern section make no image out of a refused one, nor do they spoil one. -/
theorem WellFormed.congr (h : WellFormed b) (hagree : ∀ i < patternEnd b, b'[i]? = b[i]?) :
    WellFormed b' := by
  have hlong : 16 ≤ patternEnd b := patternEnd_ge
  have hfirst : ∀ i < 16, b'[i]? = b[i]? := fun i hi => hagree i (by omega)
  have hheader := header_congr hfirst
  have hlast : b'[patternEnd b - 1]? ≠ none := by
    have hwhole := h.whole
    rw [hagree _ (by omega), Array.getElem?_eq_getElem (by omega)]
    nofun
  obtain ⟨hbanks, -, hboard⟩ := counts_congr hheader
  refine ⟨(signed_congr hfirst).2 h.signed, hbanks ▸ h.banks, hboard ▸ h.board, ?_⟩
  have hsize : ¬b'.size ≤ patternEnd b - 1 := fun hle => hlast (Array.getElem?_eq_none hle)
  rw [(bounds_congr hheader).2.2]
  omega

theorem cartridge_congr (hagree : ∀ i < patternEnd b, b'[i]? = b[i]?) (d d' : Disk) :
    cartridge b' none d' = cartridge b none d := by
  have hheader := header_congr fun i hi => hagree i (Nat.lt_of_lt_of_le hi patternEnd_ge)
  have hmapper := (counts_congr hheader).2.2
  obtain ⟨hstart, hmiddle, hend⟩ := bounds_congr hheader
  have hprogram : ∀ i < programEnd b, b'[i]? = b[i]? := fun i hi =>
    hagree i (Nat.lt_of_lt_of_le hi (Nat.le_add_right ..))
  have hboard : board b' = board b := by
    rw [board, board, hstart, hmiddle, hend, hmapper, extract_congr hprogram, extract_congr hagree]
  have hwork : Cartridge.workRamOf (header b) (board b) none d' =
      Cartridge.workRamOf (header b) (board b) none d := by
    unfold Cartridge.workRamOf
    split
    · rfl
    · cases (header b).battery <;> rfl
  rw [cartridge, cartridge, hheader, hboard, hwork]

/-- Of a prefix, what it is long enough to show. -/
theorem prefix_agrees (n : Nat) : ∀ i < n, (b.extract 0 n)[i]? = b[i]? := by
  intro i hi
  rw [getElem?_extract_eq, Nat.zero_add, if_pos hi]

theorem WellFormed.prefix_iff (h : WellFormed b) (n : Nat) :
    WellFormed (b.extract 0 n) ↔ patternEnd b ≤ n := by
  constructor
  · intro hcut
    have hlong : 16 ≤ patternEnd (b.extract 0 n) := patternEnd_ge
    have hwhole := hcut.whole
    rw [Array.size_extract] at hwhole
    have hheader := header_congr fun i (hi : i < 16) => prefix_agrees (b := b) n i (by omega)
    rw [← (bounds_congr hheader).2.2]
    omega
  · intro hn
    exact h.congr fun i hi => prefix_agrees n i (by omega)

/-- An image is known by its first sixteen bytes and by how much follows them. -/
theorem header_append {head : Array UInt8} (hhead : head.size = 16) (rest : Array UInt8) :
    header (head ++ rest) = header head :=
  header_congr fun i hi => Array.getElem?_append_left (by omega)

theorem WellFormed.append {head rest : Array UInt8} (hhead : head.size = 16)
    (hsigned : Signed head) (hbanks : 0 < programBanks head) (hboard : mapperNumber head ≤ 2)
    (hwhole : patternEnd head ≤ 16 + rest.size) : WellFormed (head ++ rest) := by
  have hheader := header_append hhead rest
  obtain ⟨hbanks', -, hboard'⟩ := counts_congr hheader
  refine ⟨(signed_congr fun i hi => Array.getElem?_append_left (by omega)).2 hsigned, ?_, ?_, ?_⟩
  · rwa [hbanks']
  · rwa [hboard']
  · rwa [(bounds_congr hheader).2.2, Array.size_append, hhead]

end Image

namespace Cartridge
open Image

/-- Loading refuses an image for the first thing that is wrong with it and accepts every other. A
prefix of an accepted image is accepted exactly when it reaches to the end of the patterns, and an
image that agrees with it up to there gives the same cartridge. -/
theorem accepts_whole_images (b : Array UInt8) (d : Disk) :
    (∀ e, ofImage b none d = .error e ↔ refusal? b = some e) ∧
    ((∃ c, ofImage b none d = .ok c) ↔ refusal? b = none) ∧
    (refusal? b = none → ∀ n, (∃ c, ofImage (b.extract 0 n) none d = .ok c) ↔ patternEnd b ≤ n) ∧
    (refusal? b = none → ∀ b' d', (∀ i < patternEnd b, b'[i]? = b[i]?) →
      ofImage b' none d' = ofImage b none d) := by
  have haccepts (b : Array UInt8) : (∃ c, ofImage b none d = .ok c) ↔ refusal? b = none := by
    rw [ofImage_eq]
    cases refusal? b <;> simp
  refine ⟨fun e => ?_, haccepts b, fun h n => ?_, fun h b' d' hagree => ?_⟩
  · rw [ofImage_eq]
    cases refusal? b <;> simp
  · rw [refusal?_eq_none_iff] at h
    rw [haccepts, refusal?_eq_none_iff, h.prefix_iff]
  · have hwell := (refusal?_eq_none_iff b).1 h
    have h' := (refusal?_eq_none_iff b').2 (hwell.congr hagree)
    rw [ofImage_eq, ofImage_eq, h, h', cartridge_congr hagree d d']

/-- A header of the second version with a trainer, whose count of program banks is not widened. -/
def trainedHeader : Array UInt8 :=
  #[0x4E, 0x45, 0x53, 0x1A, 1, 1, 0x14, 0x08, 0x30, 0x0F, 0, 0, 0, 0, 0, 0]

def trainedImage : Array UInt8 := trainedHeader ++ Array.replicate 25088 0xEA

theorem accepts_whole_images_trained :
    refusal? trainedImage = none ∧
    (¬∃ c, ofImage (trainedImage.extract 0 25103) none {} = .ok c) ∧
    (∀ i < patternEnd trainedImage, (trainedImage ++ #[1, 2, 3])[i]? = trainedImage[i]?) ∧
    ofImage (trainedImage ++ #[1, 2, 3]) none {} = ofImage trainedImage none {} := by
  have hhead : trainedHeader.size = 16 := rfl
  have hsize : trainedImage.size = 25104 := by simp [trainedImage, hhead]
  have hend : patternEnd trainedImage = 25104 := (bounds_congr (header_append hhead _)).2.2
  have hwell : WellFormed trainedImage :=
    .append hhead (by decide) (by decide) (by decide) (by rw [Array.size_replicate]; decide)
  have hnone := (refusal?_eq_none_iff _).2 hwell
  have hagree : ∀ i < patternEnd trainedImage,
      (trainedImage ++ #[1, 2, 3])[i]? = trainedImage[i]? := fun i hi =>
    Array.getElem?_append_left (by omega)
  obtain ⟨-, -, hcut, hsame⟩ := accepts_whole_images trainedImage {}
  refine ⟨hnone, fun hshort => ?_, hagree, hsame hnone _ {} hagree⟩
  have := (hcut hnone 25103).1 hshort
  omega

end Cartridge
end NesConsole
