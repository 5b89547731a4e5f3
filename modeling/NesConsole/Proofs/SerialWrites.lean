import NesConsole.Cartridge.Board

/-! The MMC1 registers as a function of every write so far: the history is cut at the writes with
bit 7 set, each piece falls into groups of five, and each whole group loads one register. What a
board shows of its banks and name tables follows. -/
namespace NesConsole
namespace SerialWrites

/-- A write to program memory: address and data. -/
abbrev Entry := UInt16 × UInt8

def cuts (w : Entry) : Bool := hasBit w.2 7

/-- The four registers without a value under way. -/
structure Values where
  control : UInt8
  chr0 : UInt8
  chr1 : UInt8
  prg : UInt8
  deriving DecidableEq, Repr

def powerUp : Values := ⟨0x0C, 0, 0, 0⟩

/-- Bits 14 and 13 of an address choose the register; the last one has four bits. -/
def Values.load (r : Values) (address : UInt16) (v : Nat) : Values :=
  match address.toNat.testBit 14, address.toNat.testBit 13 with
  | false, false => { r with control := UInt8.ofNat v }
  | false, true => { r with chr0 := UInt8.ofNat v }
  | true, false => { r with chr1 := UInt8.ofNat v }
  | true, true => { r with prg := UInt8.ofNat (v % 16) }

/-- Whole groups of five with the address of their fifth write; bit 0 of the first data byte is the
lowest. Fewer than five writes left over load nothing. -/
def groups : List Entry → List (UInt16 × Nat)
  | (_, a) :: (_, b) :: (_, c) :: (_, d) :: (address, e) :: rest =>
    (address, a.toNat % 2 + 2 * (b.toNat % 2) + 4 * (c.toNat % 2) + 8 * (d.toNat % 2) +
      16 * (e.toNat % 2)) :: groups rest
  | _ => []

def Values.loadAll (r : Values) (piece : List Entry) : Values :=
  (groups piece).foldl (fun r g => r.load g.1 g.2) r

def Values.fixLast (r : Values) : Values := { r with control := r.control ||| 0x0C }

/-- The pieces of a history in order, with a cut between each and the next. -/
def Values.overPieces (r : Values) : List (List Entry) → Values
  | [] => r
  | [piece] => r.loadAll piece
  | piece :: next :: rest => (r.loadAll piece).fixLast.overPieces (next :: rest)

def after (ws : List Entry) : Values := powerUp.overPieces (ws.splitOnP cuts)

def Values.programBank (r : Values) (n : Nat) (address : UInt16) : Nat :=
  let high := decide (0xC000 ≤ address)
  let mode := r.control.toNat / 4 % 4
  (if mode < 2 then r.prg.toNat / 2 * 2 + high.toNat
    else if mode = 2 then (if high then r.prg.toNat else 0)
    else if high then n - 1 else r.prg.toNat) % n

def Values.patternBank (r : Values) (n : Nat) (address : UInt16) : Nat :=
  let half := address.toNat / 0x1000 % 2
  (if r.control.toNat.testBit 4 then (if half = 1 then r.chr1.toNat else r.chr0.toNat)
    else r.chr0.toNat / 2 * 2 + half) % n

def Values.programPlace (r : Values) (size : Nat) (address : UInt16) : Nat :=
  r.programBank (size / 0x4000) address * 0x4000 + address.toNat % 0x4000

def Values.patternPlace (r : Values) (size : Nat) (address : UInt16) : Nat :=
  r.patternBank (max (size / 0x1000) 1) address * 0x1000 + address.toNat % 0x1000

def Values.mirroring (r : Values) : Mirroring :=
  match r.control.toNat % 4 with
  | 0 => .singleScreenLower
  | 1 => .singleScreenUpper
  | 2 => .vertical
  | _ => .horizontal

end SerialWrites

open SerialWrites

def Mmc1.values (m : Mmc1) : Values := ⟨m.control, m.chr0, m.chr1, m.prg⟩

namespace Mmc1

def writeAll (m : Mmc1) (ws : List Entry) : Mmc1 := ws.foldl (fun m w => m.write w.1 w.2) m

theorem writeAll_append (m : Mmc1) (us ws : List Entry) :
    m.writeAll (us ++ ws) = (m.writeAll us).writeAll ws := by
  simp [writeAll, List.foldl_append]

theorem value_five (a b c d e : UInt8) :
    value [hasBit a 0, hasBit b 0, hasBit c 0, hasBit d 0, hasBit e 0] =
      UInt8.ofNat (a.toNat % 2 + 2 * (b.toNat % 2) + 4 * (c.toNat % 2) + 8 * (d.toNat % 2) +
        16 * (e.toNat % 2)) := by
  have bit (v : UInt8) : (hasBit v 0).toNat = v.toNat % 2 := by
    simp [hasBit, Nat.testBit_zero]
    rcases Nat.mod_two_eq_zero_or_one v.toNat with h | h <;> simp [h]
  simp only [value, List.foldr_cons, List.foldr_nil, bit]
  congr 1
  omega

theorem commit_values (m : Mmc1) (address : UInt16) (v : Nat) :
    (m.commit address (UInt8.ofNat v)).values = m.values.load address v := by
  have hbits : address.toNat / 0x2000 % 4 =
      2 * (address.toNat.testBit 14).toNat + (address.toNat.testBit 13).toNat := by
    simp only [Nat.toNat_testBit]
    omega
  have hprg : UInt8.ofNat v % 16 = UInt8.ofNat (v % 16) := by
    apply UInt8.toNat_inj.1
    rw [UInt8.toNat_mod, UInt8.toNat_ofNat', UInt8.toNat_ofNat',
      show (16 : UInt8).toNat = 16 from rfl]
    omega
  unfold commit Values.load
  rw [hbits]
  cases address.toNat.testBit 14 <;> cases address.toNat.testBit 13 <;> simp [values, hprg]

theorem commit_pending (m : Mmc1) (address : UInt16) (v : UInt8) :
    (m.commit address v).pending = m.pending := by
  unfold commit
  split <;> rfl

/-- A cut leaves nothing under way, whatever was. -/
theorem write_cut (m : Mmc1) (w : Entry) (h : cuts w = true) :
    (m.write w.1 w.2).pending = [] ∧ (m.write w.1 w.2).values = m.values.fixLast := by
  have hw : m.write w.1 w.2 = { m with pending := [], control := m.control ||| 0x0C } :=
    if_pos h
  rw [hw]
  exact ⟨rfl, rfl⟩

/-- The first four bits of a group wait. -/
theorem write_waits (m : Mmc1) (w : Entry) (h : cuts w = false) (hm : m.pending.length < 4) :
    m.write w.1 w.2 = { m with pending := m.pending ++ [hasBit w.2 0] } := by
  have hb : hasBit w.2 7 = false := h
  have hc : m.completes w.2 = false := by
    simp only [completes, hb, Bool.not_false, Bool.true_and, beq_eq_false_iff_ne]
    omega
  simp [write, hb, hc]

/-- The fifth bit loads a register. -/
theorem write_fifth (m : Mmc1) (w : Entry) (h : cuts w = false) (hm : m.pending.length = 4) :
    m.write w.1 w.2 =
      commit w.1 (value (m.pending ++ [hasBit w.2 0])) { m with pending := [] } := by
  have hb : hasBit w.2 7 = false := h
  have hc : m.completes w.2 = true := by simp [completes, hb, hm]
  simp [write, hb, hc]

theorem writeAll_waits (m : Mmc1) (us : List Entry) (h : ∀ w ∈ us, cuts w = false)
    (hm : m.pending.length + us.length < 5) :
    m.writeAll us = { m with pending := m.pending ++ us.map fun w => hasBit w.2 0 } := by
  induction us generalizing m with
  | nil => simp [writeAll]
  | cons w us ih =>
    rw [List.length_cons] at hm
    have hw := write_waits m w (h w (by simp)) (by omega)
    have ht := ih (m.write w.1 w.2) (fun u hu => h u (by simp [hu])) (by simp [hw]; omega)
    rw [hw] at ht
    simpa [writeAll, hw] using ht

/-- A group of five with nothing under way before it. -/
theorem writeAll_five (m : Mmc1) (a b c d e : Entry) (hm : m.pending = [])
    (h : ∀ w ∈ [a, b, c, d, e], cuts w = false) :
    (m.writeAll [a, b, c, d, e]).pending = [] ∧
      (m.writeAll [a, b, c, d, e]).values = m.values.loadAll [a, b, c, d, e] := by
  have hfour := writeAll_waits m [a, b, c, d] (fun w hw => h w (List.mem_append_left [e] hw))
    (by simp [hm])
  have hrun : m.writeAll [a, b, c, d, e] = commit e.1 (value [hasBit a.2 0, hasBit b.2 0,
      hasBit c.2 0, hasBit d.2 0, hasBit e.2 0]) { m with pending := [] } := by
    rw [show [a, b, c, d, e] = [a, b, c, d] ++ [e] from rfl, writeAll_append, hfour, hm]
    exact write_fifth _ e (h e (by simp)) rfl
  rw [hrun, value_five]
  refine ⟨commit_pending .., ?_⟩
  rw [commit_values]
  rfl

/-- A piece without cuts loads its whole groups and no more. -/
theorem writeAll_piece (m : Mmc1) (piece : List Entry) (hm : m.pending = [])
    (h : ∀ w ∈ piece, cuts w = false) :
    (m.writeAll piece).values = m.values.loadAll piece := by
  match piece with
  | a :: b :: c :: d :: e :: rest =>
    obtain ⟨hp, hv⟩ := writeAll_five m a b c d e hm
      (fun w hw => h w (List.mem_append_left rest hw))
    have hr := writeAll_piece (m.writeAll [a, b, c, d, e]) rest hp (fun w hw => h w (by simp [hw]))
    rw [show a :: b :: c :: d :: e :: rest = [a, b, c, d, e] ++ rest from rfl, writeAll_append,
      hr, hv]
    rfl
  | [] | [_] | [_, _] | [_, _, _] | [_, _, _, _] =>
    rw [writeAll_waits m _ h (by simp [hm])]
    rfl

/-- Over a whole history: `us` is the beginning of a piece that `ws` goes on with. -/
theorem writeAll_pieces (m : Mmc1) (us ws : List Entry) (hm : m.pending = [])
    (h : ∀ w ∈ us, cuts w = false) :
    (m.writeAll (us ++ ws)).values =
      m.values.overPieces ((ws.splitOnP cuts).modifyHead (us ++ ·)) := by
  induction ws generalizing m us with
  | nil => simpa [Values.overPieces] using writeAll_piece m us hm h
  | cons w ws ih =>
    obtain ⟨piece, rest, hs⟩ := List.exists_cons_of_ne_nil (List.splitOnP_ne_nil cuts ws)
    cases hw : cuts w with
    | true =>
      obtain ⟨hp, hv⟩ := write_cut (m.writeAll us) w hw
      rw [writeAll_piece m us hm h] at hv
      have ht := ih ((m.writeAll us).write w.1 w.2) [] hp (by simp)
      rw [hs, hv] at ht
      rw [writeAll_append, List.splitOnP_cons_eq_if_modifyHead, hw, hs]
      simpa [Values.overPieces, writeAll] using ht
    | false =>
      have ht := ih m (us ++ [w]) hm (by simpa [or_imp, forall_and, hw] using h)
      rw [List.splitOnP_cons_eq_if_modifyHead, hw, hs]
      rw [hs] at ht
      simpa using ht

/-- The registers are a function of the history. -/
theorem values_writeAll (ws : List Entry) : (writeAll {} ws).values = after ws := by
  obtain ⟨piece, rest, hs⟩ := List.exists_cons_of_ne_nil (List.splitOnP_ne_nil cuts ws)
  have h := writeAll_pieces {} [] ws rfl (by simp)
  rw [hs] at h
  rw [after, hs]
  exact h

theorem programBank_mod (m : Mmc1) (n : Nat) (address : UInt16) :
    m.programBank (n - 1) address % n = m.values.programBank n address := by
  have hmode : m.control.toNat / 4 % 4 < 4 := Nat.mod_lt _ (by decide)
  unfold programBank Values.programBank
  simp only [values]
  rcases (by omega : m.control.toNat / 4 % 4 = 0 ∨ m.control.toNat / 4 % 4 = 1 ∨
      m.control.toNat / 4 % 4 = 2 ∨ m.control.toNat / 4 % 4 = 3) with h | h | h | h <;>
    by_cases hhigh : 0xC000 ≤ address <;> simp [h, hhigh]

theorem patternBank_mod (m : Mmc1) (n : Nat) (address : UInt16) :
    m.patternBank address % n = m.values.patternBank n address := by
  unfold patternBank Values.patternBank
  simp only [values, hasBit]
  rcases Nat.mod_two_eq_zero_or_one (address.toNat / 0x1000) with hhalf | hhalf <;>
    rcases Bool.eq_false_or_eq_true (m.control.toNat.testBit 4) with hmode | hmode <;>
    simp [hhalf, hmode]

theorem mirroring_values (m : Mmc1) : m.mirroring = m.values.mirroring := rfl

end Mmc1

namespace SerialWrites.Values

theorem programPlace_lt (r : Values) (n : Nat) (address : UInt16) :
    r.programPlace ((n + 1) * 0x4000) address < (n + 1) * 0x4000 := by
  have hb : r.programBank (n + 1) address < n + 1 := Nat.mod_lt _ (by omega)
  rw [programPlace, Nat.mul_div_cancel _ (by decide)]
  omega

theorem patternPlace_lt (r : Values) (size : Nat) (address : UInt16) (h : 0x1000 ≤ size) :
    r.patternPlace size address < size := by
  have hb : r.patternBank (max (size / 0x1000) 1) address < max (size / 0x1000) 1 :=
    Nat.mod_lt _ (by omega)
  rw [patternPlace]
  omega

end SerialWrites.Values

namespace Board

def writeAll (b : Board) (ws : List Entry) : Board := ws.foldl (fun b w => b.write w.1 w.2) b

theorem writeAll_mmc1 (b : Board) (m : Mmc1) (hm : b.mapper = .mmc1 m) (ws : List Entry) :
    b.writeAll ws = { b with mapper := .mmc1 (m.writeAll ws) } := by
  induction ws generalizing b m with
  | nil => cases b; cases hm; rfl
  | cons w ws ih =>
    have hw : b.write w.1 w.2 = { b with mapper := .mmc1 (m.write w.1 w.2) } := by
      simp [write, hm]
    have ht := ih (b.write w.1 w.2) (m.write w.1 w.2) (by rw [hw])
    rw [hw] at ht
    simpa [writeAll, Mmc1.writeAll, hw] using ht

theorem read?_mmc1 (b : Board) (m : Mmc1) (hm : b.mapper = .mmc1 m) (n : Nat)
    (hsize : b.program.size = (n + 1) * 0x4000) (address : UInt16) :
    b.read? address = b.program.bytes[m.values.programPlace b.program.size address]? := by
  have hdiv : b.program.size / 0x4000 = n + 1 := by rw [hsize, Nat.mul_div_cancel _ (by decide)]
  have hbanks : Bank.count b.program.size 0x4000 = n + 1 := by
    rw [Bank.count, hdiv]
    omega
  simp only [read?, hm, Rom.banked?, Bank.place?, Bank.count?, programBanks, hbanks,
    Values.programPlace, hdiv, ← m.programBank_mod]
  rfl

theorem readPattern?_mmc1 (b : Board) (m : Mmc1) (hm : b.mapper = .mmc1 m) (address : UInt16) :
    b.readPattern? address =
      b.patterns.bytes[m.values.patternPlace b.patterns.bytes.size address]? := by
  simp only [readPattern?, patternPlace, hm, PatternMemory.read?, Bank.place?, Bank.count?,
    Values.patternPlace, ← m.patternBank_mod]
  rfl

/-- Read-only patterns stay; others take the byte at the place that a read would show. -/
theorem writePattern?_mmc1 (b : Board) (m : Mmc1) (hm : b.mapper = .mmc1 m) (address : UInt16)
    (data : UInt8) (hram : b.patterns.writable = true → 0x1000 ≤ b.patterns.bytes.size) :
    b.writePattern? address data =
      some (if b.patterns.writable then { b with patterns := { b.patterns with
        bytes := b.patterns.bytes.setIfInBounds
          (m.values.patternPlace b.patterns.bytes.size address) data } } else b) := by
  cases hw : b.patterns.writable with
  | false => simp [writePattern?, PatternMemory.write?, hw]
  | true =>
    have hlt := m.values.patternPlace_lt b.patterns.bytes.size address (hram hw)
    simp only [writePattern?, patternPlace, hm, PatternMemory.write?, hw, Bank.place?,
      Bank.count?, if_true, Values.patternPlace, ← m.patternBank_mod] at hlt ⊢
    simp [Bank.count, hlt, Array.setIfInBounds]

/-- What the board shows after any history of writes, in terms of the registers that the history
loads: the byte of the chosen bank at every processor address, the pattern byte read or written at
every picture address, and the arrangement of the name tables. -/
theorem serial_writes_choose_banks (program : Rom) (n : Nat)
    (hsize : program.size = (n + 1) * 0x4000) (patterns : Array UInt8) (ws : List Entry) :
    let memory := PatternMemory.ofRom patterns
    let b := writeAll ⟨program, memory, .mmc1 {}⟩ ws
    let r := after ws
    (∀ address, ∃ h : r.programPlace program.size address < program.bytes.size,
      b.read? address = some program.bytes[r.programPlace program.size address]) ∧
    (0x1000 ≤ memory.bytes.size → ∀ address,
      r.patternPlace memory.bytes.size address < memory.bytes.size) ∧
    (∀ address, b.readPattern? address =
      memory.bytes[r.patternPlace memory.bytes.size address]?) ∧
    (∀ address data, b.writePattern? address data =
      some (if patterns.isEmpty then { b with patterns := { memory with
        bytes := memory.bytes.setIfInBounds (r.patternPlace memory.bytes.size address) data } }
        else b)) ∧
    b.mirroring? = some r.mirroring := by
  intro memory b r
  have hb : b = ⟨program, memory, .mmc1 (Mmc1.writeAll {} ws)⟩ := writeAll_mmc1 _ {} rfl ws
  have hr : (Mmc1.writeAll {} ws).values = r := Mmc1.values_writeAll ws
  have hwritable : memory.writable = patterns.isEmpty := by
    simp only [memory, PatternMemory.ofRom]
    split <;> simp_all
  have hram : memory.writable = true → 0x1000 ≤ memory.bytes.size := by
    intro h
    have he : patterns.isEmpty = true := hwritable ▸ h
    simp [memory, PatternMemory.ofRom, he, PatternMemory.ramSize]
  refine ⟨fun address => ?_, fun h address => r.patternPlace_lt _ address h, fun address => ?_,
    fun address data => ?_, ?_⟩
  · have hlt : r.programPlace program.size address < program.bytes.size := by
      have h := r.programPlace_lt n address
      rw [← hsize] at h
      exact h
    refine ⟨hlt, ?_⟩
    rw [hb, read?_mmc1 _ _ rfl n hsize, hr]
    exact Array.getElem?_eq_getElem hlt
  · rw [hb, readPattern?_mmc1 _ _ rfl, hr]
  · have h := writePattern?_mmc1 ⟨program, memory, .mmc1 (Mmc1.writeAll {} ws)⟩ _ rfl address data
      hram
    rw [hb, h, hr, ← hwritable]
  · rw [hb, ← hr]
    exact congrArg some (Mmc1.mirroring_values _)

/-- A cut in the middle of a group, a group over four addresses, and two writes left over. -/
theorem serial_writes_choose_banks_after_a_cut :
    let program : Rom := ⟨Array.replicate (3 * 0x4000) 0xEA⟩
    let ws : List Entry := [(0x8000, 1), (0x8000, 1), (0xE000, 0x80), (0xE000, 0), (0xA000, 1),
      (0xC000, 0), (0xFFFF, 0), (0x9FFF, 0), (0xE000, 1), (0xE000, 1)]
    program.size = (2 + 1) * 0x4000 ∧ after ws = ⟨2, 0, 0, 0⟩ ∧
      (writeAll ⟨program, .ofRom #[], .mmc1 {}⟩ ws).read? 0xC123 = some 0xEA ∧
      (writeAll ⟨program, .ofRom #[], .mmc1 {}⟩ ws).mirroring? = some .vertical := by
  intro program ws
  have hsize : program.size = (2 + 1) * 0x4000 := Array.size_replicate
  have hafter : after ws = ⟨2, 0, 0, 0⟩ := by decide
  obtain ⟨hread, -, -, -, hmirroring⟩ := serial_writes_choose_banks program 2 hsize #[] ws
  obtain ⟨hlt, hbyte⟩ := hread 0xC123
  refine ⟨hsize, hafter, ?_, ?_⟩
  · rw [hbyte]
    exact congrArg some (Array.getElem_replicate ..)
  · rw [hmirroring, hafter]
    rfl

end Board
end NesConsole
