import NesConsole.FlatMemory
import NesConsole.Proofs.Picture.OverMemory

/-! Bytes sent to video memory and fetched back through the data register, while dots go by. A dot
at which nothing is fetched leaves all that the address and data registers work on, so it makes no
difference how many of them fall between two accesses. -/
namespace NesConsole

structure DataPort where
  control : Control
  mask : Mask
  v : ScrollAddress
  t : ScrollAddress
  secondWrite : Bool
  readBuffer : UInt8

namespace Ppu

def dataPort (p : Ppu) : DataPort :=
  ⟨p.control, p.mask, p.v, p.t, p.secondWrite, p.readBuffer⟩

/-- Nothing is drawn, or the beam is between the last visible line and the line before the first. -/
def Resting (p : Ppu) : Prop :=
  p.mask.rendering = false ∨ (240 ≤ p.beam.scanline.val ∧ p.beam.scanline.val ≤ 260)

instance (p : Ppu) : Decidable p.Resting := inferInstanceAs (Decidable (_ ∨ _))

/-! ### A dot at rest -/

theorem dataPort_beginDot (p : Ppu) : (beginDot p).dataPort = p.dataPort := by
  unfold beginDot
  dsimp only
  split
  · rfl
  · split <;> rfl

theorem dataPort_spritesStageFrom (mem : UInt16 → UInt8) (p : Ppu) :
    (spritesStageFrom mem p).dataPort = p.dataPort := by
  unfold spritesStageFrom prepareFrom
  dsimp only
  split
  · split
    · split <;> rfl
    · rfl
  · rfl

theorem dataPort_renderFrom (mem : UInt16 → UInt8) (p : Ppu) :
    (renderFrom mem p).dataPort = p.dataPort := by
  unfold renderFrom noteHit
  split
  · rfl
  · split
    · split <;> rfl
    · rfl

theorem dataPort_shiftStageFrom (p : Ppu) : (shiftStageFrom p).dataPort = p.dataPort := by
  unfold shiftStageFrom
  split <;> rfl

theorem dataPort_advance (rendering : Bool) (p : Ppu) :
    (advance rendering p).dataPort = p.dataPort := by
  unfold advance
  split <;> rfl

variable {p : Ppu}

/-- Nothing is fetched on the lines between the picture and the line before it. -/
theorem Resting.fetches (h : p.Resting) : (p.mask.rendering && p.beam.onRenderLine) = false := by
  rcases h with hoff | ⟨hlow, hhigh⟩
  · rw [hoff, Bool.false_and]
  · have hpre : p.beam.scanline ≠ Beam.preRenderLine := fun he => by
      have : p.beam.scanline.val = 261 := congrArg Fin.val he
      omega
    have hvisible : ¬p.beam.scanline.val < 240 := by omega
    simp [Beam.onRenderLine, Beam.onVisibleLine, hpre, hvisible]

theorem Resting.dataPort_stepFrom (h : p.Resting) (mem : UInt16 → UInt8) :
    (stepFrom mem p).dataPort = p.dataPort := by
  have hsetting : (spritesStageFrom mem (beginDot p)).setting = p.setting := by
    rw [(spritesStageFrom_leaves mem _).1, p.beginDot_leaves.1]
  have hfetch : fetchStageFrom mem (spritesStageFrom mem (beginDot p)) =
      spritesStageFrom mem (beginDot p) := by
    rw [fetchStageFrom, mask_of_setting hsetting, beam_of_setting hsetting, h.fetches]
    rfl
  rw [stepFrom, dataPort_advance, dataPort_shiftStageFrom, dataPort_renderFrom, fetchedFrom, hfetch,
    dataPort_spritesStageFrom, dataPort_beginDot]

end Ppu

/-! ### Flat memory -/

namespace FlatMemory
variable {cells : Vector UInt8 0x4000} {b : FlatMemory 0x4000}

structure Filled (cells : Vector UInt8 0x4000) (b : FlatMemory 0x4000) : Prop where
  cells : b.cells = cells
  holes : b.holes = []

theorem Filled.inHole (h : b.Filled cells) (address : UInt16) : b.inHole address = false := by
  rw [FlatMemory.inHole, h.holes]
  rfl

def place (address : UInt16) : Fin 0x4000 :=
  ⟨address.toNat % 0x4000, Nat.mod_lt _ (by decide)⟩

theorem toNat_ofNat_place (address : UInt16) :
    (UInt16.ofNat (address.toNat % 0x4000)).toNat = (place address).val := by
  rw [UInt16.toNat_ofNat']
  exact Nat.mod_eq_of_lt (Nat.lt_trans (place address).isLt (by decide))

theorem Filled.read (h : b.Filled cells) (address : UInt16) :
    ∃ b', Bus.read address b = .ok cells[place address] b' ∧ b'.Filled cells := by
  have hget : b.get (UInt16.ofNat (address.toNat % 0x4000)).toNat = cells[place address] := by
    rw [toNat_ofNat_place, FlatMemory.get, h.cells, Nat.mod_eq_of_lt (place address).isLt]
    simp
  refine ⟨b.note (.read (UInt16.ofNat (address.toNat % 0x4000)) cells[place address]),
    ?_, h.cells, h.holes⟩
  dsimp only [Bus.read]
  rw [h.inHole, hget]
  rfl

theorem steady_filled (cells : Vector UInt8 0x4000) :
    Steady (fun address => cells[place address]) (Filled cells) :=
  fun address _ h => h.read address

theorem Filled.write (h : b.Filled cells) (address : UInt16) (data : UInt8) :
    ∃ b', Bus.write address data b = .ok () b' ∧ b'.Filled (cells.set (place address) data) := by
  let lines := UInt16.ofNat (address.toNat % 0x4000)
  have hset : (b.set lines.toNat data).cells = cells.set (place address) data := by
    simp only [lines]
    rw [toNat_ofNat_place, FlatMemory.set, h.cells, Nat.mod_eq_of_lt (place address).isLt]
    exact Vector.ext fun i hi => by rw [Vector.getElem_setIfInBounds, Vector.getElem_set]
  refine ⟨(b.set lines.toNat data).note (.write lines data), ?_, hset, h.holes⟩
  dsimp only [Bus.write]
  rw [h.inHole]
  rfl

end FlatMemory

namespace DataPort
open Ppu FlatMemory

structure At (q : DataPort) (cells : Vector UInt8 0x4000) (w : Wired Ppu (FlatMemory 0x4000)) :
    Prop where
  port : w.chip.dataPort = q
  memory : w.bus.Filled cells

variable {q : DataPort} {cells : Vector UInt8 0x4000} {w : Wired Ppu (FlatMemory 0x4000)}

theorem At.dot (h : q.At cells w) (hrest : w.chip.Resting) :
    ∃ tick w', Ppu.step w = .ok tick w' ∧ q.At cells w' := by
  obtain ⟨b', hstep, hb'⟩ := does_step (steady_filled cells) w.chip w.bus h.memory
  exact ⟨_, _, hstep, (hrest.dataPort_stepFrom _).trans h.port, hb'⟩

theorem At.readStatus (h : q.At cells w) : ∃ byte w', readRegister 0x2002 w = .ok byte w' ∧
    { q with secondWrite := false }.At cells w' :=
  ⟨_, _, rfl, congrArg (fun q => { q with secondWrite := false }) h.port, h.memory⟩

theorem At.writeHigh (h : q.At cells w) (hq : q.secondWrite = false) (byte : UInt8) :
    ∃ w', writeRegister 0x2006 byte w = .ok () w' ∧
      { q with
        secondWrite := true
        t := .ofNat (byte.toNat % 64 * 256 + q.t.toNat % 256) }.At cells w' := by
  obtain ⟨p, b⟩ := w
  obtain rfl := h.port
  have hfirst : p.secondWrite = false := hq
  refine ⟨_, rfl, ?_, h.memory⟩
  simp [dataPort, Ppu.writeAddress, hfirst]

theorem At.writeLow (h : q.At cells w) (hq : q.secondWrite = true) (byte : UInt8) :
    ∃ w', writeRegister 0x2006 byte w = .ok () w' ∧
      { q with
        secondWrite := false
        t := .ofNat (q.t.toNat / 256 * 256 + byte.toNat)
        v := .ofNat (q.t.toNat / 256 * 256 + byte.toNat) }.At cells w' := by
  obtain ⟨p, b⟩ := w
  obtain rfl := h.port
  have hsecond : p.secondWrite = true := hq
  refine ⟨_, rfl, ?_, h.memory⟩
  simp [dataPort, Ppu.writeAddress, hsecond]

def cell (q : DataPort) : Fin 0x4000 := ⟨q.v.toNat % 0x4000, Nat.mod_lt _ (by decide)⟩

def advanced (q : DataPort) : DataPort :=
  { q with v := .ofNat (q.v.toNat + q.control.increment) }

theorem toNat_busAddress (v : ScrollAddress) : v.busAddress.toNat = v.toNat % 0x4000 := by
  rw [ScrollAddress.busAddress, UInt16.toNat_ofNat']
  exact Nat.mod_eq_of_lt (Nat.lt_trans (Nat.mod_lt _ (by decide)) (by decide))

theorem place_busAddress (p : Ppu) : place p.v.busAddress = p.dataPort.cell := by
  refine Fin.ext (show p.v.busAddress.toNat % 0x4000 = p.v.toNat % 0x4000 from ?_)
  rw [toNat_busAddress, Nat.mod_mod]

theorem At.writeData (h : q.At cells w) (byte : UInt8) :
    ∃ w', writeRegister 0x2007 byte w = .ok () w' ∧
      q.advanced.At (cells.set q.cell byte) w' := by
  obtain ⟨p, b⟩ := w
  obtain rfl := h.port
  obtain ⟨b', hwrite, hb'⟩ := h.memory.write p.v.busAddress byte
  simp only [place_busAddress] at hb'
  have hput : Wired.write p.v.busAddress byte
      (⟨{ p with latch := byte }, b⟩ : Wired Ppu (FlatMemory 0x4000)) = .ok () ⟨_, b'⟩ :=
    Wired.write_ok hwrite
  exact ⟨⟨stepAddress { p with latch := byte }, b'⟩, (bind_ok hput).trans rfl, rfl, hb'⟩

/-- Below palette memory a read answers with the byte of the read before. -/
theorem At.readData (h : q.At cells w) (hv : q.v.toNat < 0x3F00) :
    ∃ w', readRegister 0x2007 w = .ok q.readBuffer w' ∧
      { q.advanced with readBuffer := cells[q.cell] }.At cells w' := by
  obtain ⟨p, b⟩ := w
  obtain rfl := h.port
  have hbelow : ¬0x3F00 ≤ p.v.busAddress := by
    have hlt : p.v.toNat < 0x3F00 := hv
    rw [UInt16.le_iff_toNat_le, toNat_busAddress]
    change ¬0x3F00 ≤ p.v.toNat % 0x4000
    omega
  obtain ⟨b', hread, hb'⟩ := h.memory.read p.v.busAddress
  simp only [place_busAddress] at hread
  refine ⟨⟨stepAddress { p with readBuffer := cells[p.dataPort.cell] }, b'⟩, ?_, rfl, hb'⟩
  have hfetch : Wired.read p.v.busAddress (⟨p, b⟩ : Wired Ppu (FlatMemory 0x4000)) =
      .ok _ ⟨p, b'⟩ := Wired.read_ok hread
  change readData (⟨p, b⟩ : Wired Ppu (FlatMemory 0x4000)) = _
  unfold readData
  refine (bind_ok (show Wired.look (·.v.busAddress) (⟨p, b⟩ : Wired Ppu (FlatMemory 0x4000)) =
    .ok p.v.busAddress ⟨p, b⟩ from rfl)).trans ?_
  rw [if_neg hbelow]
  exact (bind_ok hfetch).trans rfl

/-! ### Accesses with dots between them -/

inductive Turn where
  | dot
  | read (address : UInt16)
  | write (address : UInt16) (data : UInt8)
  deriving DecidableEq

namespace Turn

def isAccess : Turn → Bool
  | .dot => false
  | .read _ | .write _ _ => true

def run : Turn → EStateM BusError (Wired Ppu (FlatMemory 0x4000)) (List UInt8)
  | .dot => do
    let _ ← Ppu.step
    return []
  | .read address => do
    let byte ← readRegister address
    return [byte]
  | .write address data => do
    writeRegister address data
    return []

def runAll : List Turn → EStateM BusError (Wired Ppu (FlatMemory 0x4000)) (List UInt8)
  | [] => return []
  | turn :: turns => do
    let first ← turn.run
    let rest ← runAll turns
    return first ++ rest

def RestThroughout : List Turn → Wired Ppu (FlatMemory 0x4000) → Prop
  | [], _ => True
  | turn :: turns, w =>
    (turn = .dot → w.chip.Resting) ∧ RestThroughout turns (stateAfter turn.run w)

instance decidableRestThroughout : (turns : List Turn) → (w : Wired Ppu (FlatMemory 0x4000)) →
    Decidable (RestThroughout turns w)
  | [], _ => isTrue trivial
  | turn :: turns, w =>
    have := decidableRestThroughout turns (stateAfter turn.run w)
    inferInstanceAs (Decidable ((turn = .dot → w.chip.Resting) ∧
      RestThroughout turns (stateAfter turn.run w)))

end Turn

open Turn

def Ends (turns : List Turn) (w : Wired Ppu (FlatMemory 0x4000)) (B : List UInt8 → Prop)
    (q' : DataPort) (cells' : Vector UInt8 0x4000) : Prop :=
  ∃ bytes w', runAll turns w = .ok bytes w' ∧ B bytes ∧ q'.At cells' w'

/-- However many dots at rest are put between these accesses, they answer bytes in `B` and take one
port and memory to another. -/
def Carries (q : DataPort) (cells : Vector UInt8 0x4000) (accesses : List Turn)
    (B : List UInt8 → Prop) (q' : DataPort) (cells' : Vector UInt8 0x4000) : Prop :=
  ∀ turns w, turns.filter isAccess = accesses → RestThroughout turns w → q.At cells w →
    Ends turns w B q' cells'

variable {turns accesses accesses' : List Turn} {B B' : List UInt8 → Prop} {q' q'' : DataPort}
  {cells' cells'' : Vector UInt8 0x4000}

theorem Ends.cons {turn : Turn} {first : List UInt8} {w₁ : Wired Ppu (FlatMemory 0x4000)}
    (hfirst : turn.run w = .ok first w₁) (h : Ends turns w₁ (fun l => B (first ++ l)) q' cells') :
    Ends (turn :: turns) w B q' cells' := by
  obtain ⟨bytes, w', hruns, hbytes, h'⟩ := h
  exact ⟨first ++ bytes, w', (bind_ok hfirst).trans ((bind_ok hruns).trans rfl), hbytes, h'⟩

/-- A dot at rest goes by. -/
theorem Ends.dot (h : q.At cells w) (hrest : RestThroughout (.dot :: turns) w)
    (hnext : ∀ w₁, RestThroughout turns w₁ → q.At cells w₁ → Ends turns w₁ B q' cells') :
    Ends (.dot :: turns) w B q' cells' := by
  obtain ⟨tick, w₁, hstep, h₁⟩ := h.dot (hrest.1 rfl)
  have hrun : Turn.dot.run w = .ok [] w₁ := (bind_ok hstep).trans rfl
  have hrest' := hrest.2
  rw [stateAfter, hrun] at hrest'
  exact .cons hrun (hnext w₁ hrest' h₁)

namespace Carries

theorem nil : Carries q cells [] (· = []) q cells := by
  intro turns
  induction turns with
  | nil => exact fun w _ _ h => ⟨_, w, rfl, rfl, h⟩
  | cons turn turns ih =>
    intro w hfilter hrest h
    cases turn with
    | read | write => cases hfilter
    | dot => exact .dot h hrest fun w₁ => ih w₁ hfilter

/-- An access, and those that follow it. -/
theorem cons {a : Turn} (ha : a.isAccess = true)
    (hfirst : ∀ w, q.At cells w → ∃ bytes w', a.run w = .ok bytes w' ∧ B bytes ∧ q'.At cells' w')
    (hrest : Carries q' cells' accesses B' q'' cells'') :
    Carries q cells (a :: accesses) (fun bytes => ∃ l r, bytes = l ++ r ∧ B l ∧ B' r) q''
      cells'' := by
  intro turns
  induction turns with
  | nil => exact fun w hfilter => nomatch hfilter
  | cons turn turns ih =>
    intro w hfilter hrests h
    cases hturn : turn.isAccess with
    | false =>
      obtain rfl : turn = .dot := by
        cases turn with
        | dot => rfl
        | read | write => cases hturn
      exact .dot h hrests fun w₁ => ih w₁ hfilter
    | true =>
      rw [List.filter_cons_of_pos hturn] at hfilter
      obtain ⟨rfl, htail⟩ := List.cons.inj hfilter
      obtain ⟨first, w₁, hrun, hB, h₁⟩ := hfirst w h
      have hrests' := hrests.2
      rw [stateAfter, hrun] at hrests'
      obtain ⟨bytes, w', hruns, hB', h'⟩ := hrest turns w₁ htail hrests' h₁
      exact .cons hrun ⟨bytes, w', hruns, ⟨first, bytes, rfl, hB, hB'⟩, h'⟩

theorem mono {C : List UInt8 → Prop} (h : Carries q cells accesses B q' cells')
    (hC : ∀ bytes, B bytes → C bytes) : Carries q cells accesses C q' cells' := by
  intro turns w hfilter hrest hat
  obtain ⟨bytes, w', hruns, hB, h'⟩ := h turns w hfilter hrest hat
  exact ⟨bytes, w', hruns, hC bytes hB, h'⟩

theorem read {C : UInt8 → Prop} {address : UInt16} (hread : ∀ w, q.At cells w →
      ∃ byte w', readRegister address w = .ok byte w' ∧ C byte ∧ q'.At cells' w')
    (hrest : Carries q' cells' accesses B q'' cells'') :
    Carries q cells (.read address :: accesses)
      (fun bytes => ∃ byte rest, bytes = byte :: rest ∧ C byte ∧ B rest) q'' cells'' := by
  have hfirst (w : Wired Ppu (FlatMemory 0x4000)) (h : q.At cells w) : ∃ bytes w',
      (Turn.read address).run w = .ok bytes w' ∧ (∃ byte, bytes = [byte] ∧ C byte) ∧
        q'.At cells' w' := by
    obtain ⟨byte, w', hok, hC, h'⟩ := hread w h
    exact ⟨[byte], w', (bind_ok hok).trans rfl, ⟨byte, rfl, hC⟩, h'⟩
  refine (cons rfl hfirst hrest).mono ?_
  rintro bytes ⟨_, rest, rfl, ⟨byte, rfl, hC⟩, hB⟩
  exact ⟨byte, rest, rfl, hC, hB⟩

theorem write {address : UInt16} {data : UInt8} (hwrite : ∀ w, q.At cells w →
      ∃ w', writeRegister address data w = .ok () w' ∧ q'.At cells' w')
    (hrest : Carries q' cells' accesses B q'' cells'') :
    Carries q cells (.write address data :: accesses) B q'' cells'' := by
  have hfirst (w : Wired Ppu (FlatMemory 0x4000)) (h : q.At cells w) : ∃ bytes w',
      (Turn.write address data).run w = .ok bytes w' ∧ bytes = [] ∧ q'.At cells' w' := by
    obtain ⟨w', hok, h'⟩ := hwrite w h
    exact ⟨[], w', (bind_ok hok).trans rfl, rfl, h'⟩
  refine (cons rfl hfirst hrest).mono ?_
  rintro bytes ⟨_, rest, rfl, rfl, hB⟩
  exact hB

end Carries

/-! ### Where the bytes go -/

def sent (step : Nat) (cells : Vector UInt8 0x4000) (place : Nat) :
    List UInt8 → Vector UInt8 0x4000
  | [] => cells
  | byte :: data => sent step (cells.setIfInBounds place byte) (place + step) data

theorem sent_elsewhere {step place n : Nat} {data : List UInt8}
    (h : ∀ i < data.length, n ≠ place + step * i) :
    (sent step cells place data)[n]? = cells[n]? := by
  induction data generalizing cells place with
  | nil => rfl
  | cons byte data ih =>
    have hhere : n ≠ place := h 0 (Nat.zero_lt_succ _)
    rw [sent, ih, Vector.getElem?_setIfInBounds_ne hhere.symm]
    intro i hi
    have hlater := h (i + 1) (Nat.succ_lt_succ hi)
    rw [Nat.mul_succ] at hlater
    omega

theorem sent_at {step place i : Nat} {data : List UInt8} (hstep : 0 < step)
    (hfits : place + step * data.length ≤ 0x4000) (hi : i < data.length) :
    (sent step cells place data)[place + step * i]? = data[i]? := by
  induction data generalizing cells place i with
  | nil => cases hi
  | cons byte data ih =>
    rw [List.length_cons, Nat.mul_succ] at hfits
    cases i with
    | zero =>
      have hother : ∀ i < data.length, place ≠ place + step + step * i := fun i _ => by omega
      rw [Nat.mul_zero, Nat.add_zero, sent, sent_elsewhere hother,
        Vector.getElem?_setIfInBounds_self_of_lt (by omega)]
      rfl
    | succ i =>
      have hplace : place + step * (i + 1) = place + step + step * i := by
        rw [Nat.mul_succ]
        omega
      rw [sent, hplace, ih (by omega) (Nat.lt_of_succ_lt_succ hi)]
      rfl

/-! ### Aiming, sending and fetching -/

def moved (q : DataPort) (n : Nat) : DataPort := { q with v := .ofNat n }

theorem advanced_moved (q : DataPort) {n : Nat} (h : n < 0x8000) :
    (q.moved n).advanced = q.moved (n + q.control.increment) := by
  have hn : (q.moved n).v.toNat = n := (ScrollAddress.toNat_ofNat n).trans (Nat.mod_eq_of_lt h)
  rw [advanced, hn]
  rfl

theorem cell_moved (q : DataPort) {n : Nat} (h : n < 0x4000) : (q.moved n).cell = ⟨n, h⟩ := by
  refine Fin.ext (show (ScrollAddress.ofNat n).toNat % 0x4000 = n from ?_)
  rw [ScrollAddress.toNat_ofNat]
  omega

/-- A read of the status register, which ends a half-written pair, and a whole pair after it. -/
def aim (address : UInt16) : List Turn :=
  [.read 0x2002, .write 0x2006 (highByte address), .write 0x2006 (lowByte address)]

def aimed (q : DataPort) (address : UInt16) : DataPort :=
  { q with v := .ofNat address.toNat, t := .ofNat address.toNat, secondWrite := false }

theorem aimed_eq {address : UInt16} (h : address < 0x4000) (t : ScrollAddress) :
    (ScrollAddress.ofNat ((highByte address).toNat % 64 * 256 + t.toNat % 256)).toNat / 256 * 256 +
      (lowByte address).toNat = address.toNat := by
  have hlt : address.toNat < 0x4000 := UInt16.lt_iff_toNat_lt.1 h
  rw [ScrollAddress.toNat_ofNat, toNat_highByte, toNat_lowByte]
  omega

/-- From any port: what was left over of a pair, of the address and of the buffer has no say. -/
theorem carries_aim (q : DataPort) (cells : Vector UInt8 0x4000) {address : UInt16}
    (h : address < 0x4000) (hrest : Carries (q.aimed address) cells accesses B q' cells') :
    Carries q cells (aim address ++ accesses)
      (fun bytes => ∃ status rest, bytes = status :: rest ∧ True ∧ B rest) q' cells' := by
  have hpair : Carries { q with secondWrite := false } cells
      (.write 0x2006 (highByte address) :: .write 0x2006 (lowByte address) :: accesses) B q'
      cells' := by
    refine .write (fun w hw => hw.writeHigh rfl _) (.write (fun w hw => ?_) hrest)
    obtain ⟨w', hok, hw'⟩ := hw.writeLow rfl (lowByte address)
    simp only [aimed_eq h] at hw'
    exact ⟨w', hok, hw'⟩
  refine .read (fun w hw => ?_) hpair
  obtain ⟨byte, w', hok, hw'⟩ := hw.readStatus
  exact ⟨byte, w', hok, trivial, hw'⟩

theorem carries_send (q : DataPort) (data : List UInt8) (cells : Vector UInt8 0x4000) (n : Nat)
    (h : n + q.control.increment * data.length < 0x3F00) :
    Carries (q.moved n) cells (data.map (.write 0x2007)) (· = [])
      (q.moved (n + q.control.increment * data.length))
      (sent q.control.increment cells n data) := by
  induction data generalizing n cells with
  | nil => exact .nil
  | cons byte data ih =>
    rw [List.length_cons, Nat.mul_succ] at h ⊢
    have hnext := ih (cells.setIfInBounds n byte) (n + q.control.increment) (by omega)
    have hend : n + q.control.increment + q.control.increment * data.length =
        n + (q.control.increment * data.length + q.control.increment) := by omega
    have hcell := q.cell_moved (n := n) (by omega)
    have hset : cells.set (q.moved n).cell byte = cells.setIfInBounds n byte := by
      refine Vector.ext fun i hi => ?_
      rw [Vector.getElem_setIfInBounds, Vector.getElem_set, hcell]
    rw [hend] at hnext
    refine .write (fun w hw => ?_) hnext
    obtain ⟨w', hok, hw'⟩ := hw.writeData byte
    rw [hset, advanced_moved q (by omega)] at hw'
    exact ⟨w', hok, hw'⟩

/-- A read answers with the byte that the read before it fetched. -/
theorem carries_read {n : Nat} (hn : n < 0x3F00) {byte : UInt8} (hbyte : cells[n]? = some byte)
    (hrest : Carries ({ q with readBuffer := byte }.moved (n + q.control.increment)) cells accesses
      B q' cells') :
    Carries (q.moved n) cells (.read 0x2007 :: accesses)
      (fun bytes => ∃ stale rest, bytes = stale :: rest ∧ stale = q.readBuffer ∧ B rest) q'
      cells' := by
  refine .read (fun w hw => ?_) hrest
  have hv : (q.moved n).v.toNat = n :=
    (ScrollAddress.toNat_ofNat n).trans (Nat.mod_eq_of_lt (by omega))
  obtain ⟨w', hok, hw'⟩ := hw.readData (by omega)
  have hfetched : cells[(q.moved n).cell] = byte := by
    simp only [cell_moved q (show n < 0x4000 by omega)]
    exact (Vector.getElem?_eq_some_iff.1 hbyte).2
  rw [advanced_moved q (by omega), hfetched] at hw'
  exact ⟨_, w', hok, rfl, hw'⟩

/-- So the first read after aiming is stale, and one more is needed than there are bytes. -/
theorem carries_fetch (data : List UInt8) (q : DataPort) (cells : Vector UInt8 0x4000) (n : Nat)
    (h : n + q.control.increment * data.length < 0x3F00)
    (hdata : ∀ i < data.length, cells[n + q.control.increment * i]? = data[i]?) :
    ∃ q', Carries (q.moved n) cells (List.replicate (data.length + 1) (.read 0x2007))
      (· = q.readBuffer :: data) q' cells := by
  induction data generalizing q n with
  | nil =>
    have hn : n < 0x3F00 := h
    have hbyte : cells[n]? = some cells[n] := Vector.getElem?_eq_getElem (by omega)
    refine ⟨_, (carries_read hn hbyte .nil).mono ?_⟩
    rintro bytes ⟨_, rest, rfl, rfl, rfl⟩
    rfl
  | cons byte data ih =>
    rw [List.length_cons, Nat.mul_succ] at h
    have hbyte : cells[n]? = some byte := hdata 0 (Nat.zero_lt_succ _)
    have hlater : ∀ i < data.length,
        cells[n + q.control.increment + q.control.increment * i]? = data[i]? := by
      intro i hi
      have hi' := hdata (i + 1) (Nat.succ_lt_succ hi)
      rwa [Nat.mul_succ, Nat.add_comm (_ * i), ← Nat.add_assoc] at hi'
    obtain ⟨q', hrest⟩ := ih { q with readBuffer := byte } (n + q.control.increment)
      (show n + q.control.increment + q.control.increment * data.length < 0x3F00 by omega) hlater
    refine ⟨q', (carries_read (by omega) hbyte hrest).mono ?_⟩
    rintro bytes ⟨_, rest, rfl, rfl, rfl⟩
    rfl

theorem increment_pos (c : Control) : 0 < c.increment := by
  unfold Control.increment
  split <;> decide

/-- From any state over a memory without holes: a byte list sent after aiming at an address stands
there, one byte each increment, and every other byte of the memory is as it was. Aiming again and
reading one more time than there are bytes answers a stale byte and then the list. In both, any
number of dots may fall between the accesses as long as each finds the picture unit at rest. -/
theorem uploads_are_exact {w : Wired Ppu (FlatMemory 0x4000)} (hholes : w.bus.holes = [])
    (address : UInt16) (data : List UInt8)
    (hfits : address.toNat + w.chip.control.increment * data.length < 0x3F00)
    (hturns : turns.filter isAccess = aim address ++ data.map (.write 0x2007))
    (hrest : RestThroughout turns w) :
    let step := w.chip.control.increment
    ∃ status w', runAll turns w = .ok [status] w' ∧
      (∀ i < data.length, w'.bus.cells[address.toNat + step * i]? = data[i]?) ∧
      (∀ n, (∀ i < data.length, n ≠ address.toNat + step * i) →
        w'.bus.cells[n]? = w.bus.cells[n]?) ∧
      w'.chip.v.toNat = address.toNat + step * data.length ∧
      ∀ turns', turns'.filter isAccess =
          aim address ++ List.replicate (data.length + 1) (.read 0x2007) →
        RestThroughout turns' w' → ∃ status stale w'',
          runAll turns' w' = .ok (status :: stale :: data) w'' ∧
            w''.bus.cells = w'.bus.cells := by
  intro step
  have hlines : address < 0x4000 := UInt16.lt_iff_toNat_lt.2 (by
    change address.toNat < 0x4000
    omega)
  have hstart : w.chip.dataPort.At w.bus.cells w := ⟨rfl, rfl, hholes⟩
  have hsend := carries_aim w.chip.dataPort w.bus.cells hlines
    (carries_send (w.chip.dataPort.aimed address) data w.bus.cells address.toNat hfits)
  obtain ⟨_, w', hruns, ⟨status, _, rfl, -, rfl⟩, hw'⟩ := hsend turns w hturns hrest hstart
  have hcells : w'.bus.cells = sent step w.bus.cells address.toNat data := hw'.memory.cells
  have hsent : ∀ i < data.length, w'.bus.cells[address.toNat + step * i]? = data[i]? := by
    intro i hi
    rw [hcells]
    exact sent_at (increment_pos _) (Nat.le_of_lt (Nat.lt_trans hfits (by decide))) hi
  refine ⟨status, w', hruns, hsent, fun n hn => ?_, ?_, fun turns' hturns' hrest' => ?_⟩
  · rw [hcells]
    exact sent_elsewhere hn
  · have hv := congrArg (fun q : DataPort => q.v.toNat) hw'.port
    refine hv.trans ((ScrollAddress.toNat_ofNat _).trans (Nat.mod_eq_of_lt ?_))
    exact Nat.lt_trans hfits (by decide)
  · have hcontrol : w'.chip.control = w.chip.control := congrArg DataPort.control hw'.port
    have hfetch := carries_fetch data (w'.chip.dataPort.aimed address) w'.bus.cells address.toNat
    obtain ⟨q', hfetch⟩ := hfetch (by rw [← hcontrol] at hfits; exact hfits)
      (by simp only [step, ← hcontrol] at hsent; exact hsent)
    obtain ⟨_, w'', hruns', ⟨status', _, rfl, -, rfl⟩, hw''⟩ :=
      carries_aim w'.chip.dataPort w'.bus.cells hlines hfetch turns' w' hturns' hrest'
        ⟨rfl, rfl, hw'.memory.holes⟩
    exact ⟨status', _, w'', hruns', hw''.memory.cells⟩

/-- A picture unit in its vertical blank that draws, goes down a row at a time and has half of a
pair written. -/
def blanked : Wired Ppu (FlatMemory 0x4000) :=
  ⟨{ control := ⟨4⟩, mask := ⟨8⟩, secondWrite := true, beam := ⟨250, 339⟩ }, .blank⟩

def sending : List Turn :=
  [.dot, .read 0x2002, .dot, .write 0x2006 0x21, .write 0x2006 0x08, .dot, .dot,
    .write 0x2007 0x11, .dot, .write 0x2007 0x22]

def fetching : List Turn :=
  [.read 0x2002, .write 0x2006 0x21, .dot, .write 0x2006 0x08, .read 0x2007, .dot, .read 0x2007,
    .dot, .dot, .read 0x2007, .dot]

theorem uploads_are_exact_blanked :
    ∃ status w', runAll sending blanked = .ok [status] w' ∧ w'.bus.cells[0x2108]? = some 0x11 ∧
      w'.bus.cells[0x2128]? = some 0x22 ∧ w'.bus.cells[0x2109]? = blanked.bus.cells[0x2109]? ∧
      ∃ status' stale w'', runAll fetching w' = .ok [status', stale, 0x11, 0x22] w'' := by
  have hrest : RestThroughout sending blanked := by decide +kernel
  obtain ⟨status, w', hruns, hsent, hkept, -, hfetch⟩ :=
    uploads_are_exact (w := blanked) rfl 0x2108 [0x11, 0x22] (by decide) rfl hrest
  have hend : w' = stateAfter (runAll sending) blanked := by rw [stateAfter, hruns]
  have hrest' : RestThroughout fetching w' := by
    rw [hend]
    decide +kernel
  obtain ⟨status', stale, w'', hruns', -⟩ := hfetch fetching rfl hrest'
  refine ⟨status, w', hruns, hsent 0 (by decide), hsent 1 (by decide), hkept _ ?_, status', stale,
    w'', hruns'⟩
  decide

end DataPort
end NesConsole
