import NesConsole.Proofs.Safety.HostRun

/-! The joypads through any interleaving of a host that sets buttons and a program that strobes and
reads. A register takes the buttons at a write that sets the strobe and at each read while it is
set, so buttons set after the last of these are not seen when the strobe falls. -/
namespace NesConsole

inductive Port where
  | first | second
  deriving DecidableEq

namespace Port

def number : Port → Nat
  | .first => 0
  | .second => 1

def address : Port → UInt16
  | .first => Peripherals.firstPadAddress
  | .second => Peripherals.secondPadAddress

end Port

def Peripherals.pad (port : Port) (p : Peripherals) : Joypad :=
  match port with
  | .first => p.first
  | .second => p.second

namespace Joypad
variable (j : Joypad)

@[simp] theorem held_read : j.read.2.held = j.held := by
  unfold read
  split <;> rfl

@[simp] theorem strobe_read : j.read.2.strobe = j.strobe := by
  unfold read
  split <;> rfl

variable {j}

theorem shift_read_strobed (h : j.strobe = true) : j.read.2.shift = j.held := by
  rw [read, if_pos h]

end Joypad

inductive PadAct where
  | hold (port : Port) (buttons : UInt8)
  | strobe (data : UInt8)
  | read (port : Port)
  deriving DecidableEq

namespace PadAct

def op : PadAct → HostOp
  | .hold port buttons => .hold port.number buttons
  | .strobe data => .write Peripherals.firstPadAddress data
  | .read port => .read port.address

def onPad (port : Port) : PadAct → Joypad → Joypad
  | .hold port' buttons, j => if port' = port then j.hold buttons else j
  | .strobe data, j => j.write data
  | .read port', j => if port' = port then j.read.2 else j

end PadAct

namespace Console

def pad (port : Port) (c : Console) : Joypad := c.bus.peripherals.pad port

/-- A console after the acts, the latest of which stands first. -/
def afterActs (c : Console) : List PadAct → Console
  | [] => c
  | act :: past => Visit.after (act.op.run (c.afterActs past))

def answer? (c : Console) (port : Port) (past : List PadAct) : Option UInt8 :=
  match (PadAct.read port).op.run (c.afterActs past) with
  | .ok byte _ => byte
  | .error _ _ => none

end Console

theorem MainBus.read_pad (port : Port) (b : MainBus) : MainBus.read port.address b =
    .ok (b.peripherals.read port.address).1
      { b with peripherals := (b.peripherals.read port.address).2 } := by
  have howner : mainMap.owner? port.address = some .peripherals := by cases port <;> decide
  unfold MainBus.read
  rw [howner]

theorem MainBus.write_strobe (data : UInt8) (b : MainBus) :
    MainBus.write Peripherals.firstPadAddress data b = .ok () { b with
      peripherals := { b.peripherals with
        first := b.peripherals.first.write data, second := b.peripherals.second.write data } } := by
  have howner : mainMap.owner? Peripherals.firstPadAddress = some .peripherals := by decide
  unfold MainBus.write
  rw [howner]
  rfl

namespace Console
variable {c : Console}

theorem pad_hold (port port' : Port) (buttons : UInt8) :
    (c.hold port'.number buttons).pad port =
      if port' = port then (c.pad port).hold buttons else c.pad port := by
  cases port <;> cases port' <;> rfl

/-- An act is never refused, and comes to the same at each pad wherever it is made. -/
theorem run_padAct (act : PadAct) (port : Port) :
    ∃ byte d, act.op.run c = .ok byte d ∧ d.pad port = act.onPad port (c.pad port) ∧
      ∀ port', act = .read port' → byte = some (c.pad port').read.1 := by
  cases act with
  | hold port' buttons =>
    exact ⟨none, c.hold port'.number buttons, rfl, pad_hold port port' buttons, nofun⟩
  | strobe data =>
    have hwrite : (PadAct.strobe data).op.run c = _ :=
      bind_ok (x := onBus _) (by
        dsimp only [onBus, Wired.onBus]
        rw [MainBus.write_strobe])
    refine ⟨none, _, hwrite, ?_, nofun⟩
    cases port <;> rfl
  | read port' =>
    have hread : (PadAct.read port').op.run c = _ :=
      bind_ok (x := onBus _) (by
        dsimp only [onBus, Wired.onBus]
        rw [MainBus.read_pad])
    refine ⟨_, _, hread, ?_, ?_⟩
    · cases port <;> cases port' <;> rfl
    · rintro _ ⟨⟩
      cases port' <;> rfl

theorem pad_afterActs (port : Port) (past : List PadAct) :
    (c.afterActs past).pad port = past.foldr (PadAct.onPad port) (c.pad port) := by
  induction past with
  | nil => rfl
  | cons act past ih =>
    obtain ⟨byte, d, hrun, hpad, -⟩ := run_padAct (c := c.afterActs past) act port
    rw [afterActs, hrun, List.foldr_cons, ← ih]
    exact hpad

theorem answer?_eq (port : Port) (past : List PadAct) :
    c.answer? port past = some (past.foldr (PadAct.onPad port) (c.pad port)).read.1 := by
  obtain ⟨byte, d, hrun, -, hbyte⟩ := run_padAct (c := c.afterActs past) (.read port) port
  unfold answer?
  rw [hrun, ← pad_afterActs]
  exact hbyte port rfl

end Console

/-! ### What a history says of a pad -/

namespace PadAct
variable (port : Port) (start : Joypad)

def held : List PadAct → UInt8
  | [] => start.held
  | .hold port' buttons :: past => if port' = port then buttons else held past
  | .strobe _ :: past | .read _ :: past => held past

def strobed : List PadAct → Bool
  | [] => start.strobe
  | .strobe data :: _ => hasBit data 0
  | .hold .. :: past | .read _ :: past => strobed past

/-- Whether the register takes the buttons at this act. -/
def loads : PadAct → (past : List PadAct) → Bool
  | .hold .., _ => false
  | .strobe data, _ => hasBit data 0
  | .read port', past => port' = port && strobed start past

def taken : List PadAct → UInt8
  | [] => start.shift
  | act :: past => if loads port start act past then held port start past else taken past

def button (buttons : UInt8) (k : Nat) : UInt8 :=
  if k < 8 then bitValue (hasBit buttons k) 0 else 1

theorem held_foldr (past : List PadAct) :
    (past.foldr (onPad port) start).held = held port start past := by
  induction past with
  | nil => rfl
  | cons act past ih =>
    rw [List.foldr_cons]
    cases act with
    | hold port' buttons => simp only [onPad, apply_ite Joypad.held, Joypad.hold, ih, held]
    | strobe data => exact ih
    | read port' => simp only [onPad, apply_ite Joypad.held, Joypad.held_read, ite_self, ih, held]

theorem strobe_foldr (past : List PadAct) :
    (past.foldr (onPad port) start).strobe = strobed start past := by
  induction past with
  | nil => rfl
  | cons act past ih =>
    rw [List.foldr_cons]
    cases act with
    | hold port' buttons =>
      simp only [onPad, apply_ite Joypad.strobe, Joypad.hold, ite_self, ih, strobed]
    | strobe data => rfl
    | read port' =>
      simp only [onPad, apply_ite Joypad.strobe, Joypad.strobe_read, ite_self, ih, strobed]

variable {port start}

/-- While the strobe is set the register holds the buttons it took last. -/
theorem shift_foldr {past : List PadAct} (h : strobed start past = true) :
    (past.foldr (onPad port) start).shift = taken port start past := by
  induction past with
  | nil => rfl
  | cons act past ih =>
    rw [List.foldr_cons]
    cases act with
    | hold port' buttons =>
      simp only [onPad, apply_ite Joypad.shift, Joypad.hold, ite_self, ih h]
      rfl
    | strobe data =>
      have hset : hasBit data 0 = true := h
      simp only [onPad, Joypad.write, hset, if_true, taken, loads, held_foldr]
    | read port' =>
      have hset : strobed start past = true := h
      have hread := Joypad.shift_read_strobed ((strobe_foldr port start past).trans hset)
      simp only [onPad, apply_ite Joypad.shift, hread, held_foldr, ih hset, taken, loads, hset,
        Bool.and_true, decide_eq_true_eq]

/-- Buttons that are set before the register takes them once more are seen. -/
theorem taken_eq_held {act : PadAct} {earlier : List PadAct}
    (hload : loads port start act earlier = true) (later : List PadAct)
    (hquiet : ∀ buttons, .hold port buttons ∉ later) :
    taken port start (later ++ act :: earlier) = held port start (later ++ act :: earlier) := by
  induction later with
  | nil =>
    rw [List.nil_append, taken, if_pos hload]
    cases act with
    | hold => cases hload
    | strobe | read => rfl
  | cons act' later ih =>
    have hrest := ih fun buttons h => hquiet buttons (List.mem_cons_of_mem _ h)
    have hkept : held port start (act' :: later ++ act :: earlier) =
        held port start (later ++ act :: earlier) := by
      cases act' with
      | hold port' buttons =>
        refine if_neg fun hport => hquiet buttons ?_
        rw [hport]
        exact List.mem_cons_self
      | strobe | read => rfl
    rw [hkept, List.cons_append, taken, hrest, ite_self]

/-! ### The register after the strobe fell -/

theorem button_zero (v : UInt8) : button v 0 = v % 2 := by
  have hbit : hasBit v 0 = decide (v.toNat % 2 = 1) := Nat.testBit_zero _
  rw [button, if_pos (by decide), hbit]
  apply UInt8.toNat_inj.1
  rw [UInt8.toNat_mod]
  change _ = v.toNat % 2
  rcases Nat.mod_two_eq_zero_or_one v.toNat with h | h <;> rw [h] <;> rfl

/-- A read moves the buttons down by one, with a one at the top. -/
theorem button_shifted (v : UInt8) (k : Nat) : button (v / 2 + 0x80) k = button v (k + 1) := by
  have hv := v.toNat_lt
  have hsum : (v / 2 + 0x80).toNat = 2 ^ 7 + v.toNat / 2 := by
    rw [UInt8.toNat_add, UInt8.toNat_div]
    change (v.toNat / 2 + 128) % 256 = 128 + v.toNat / 2
    omega
  rcases Nat.lt_trichotomy k 7 with hk | rfl | hk
  · rw [button, button, if_pos (by omega), if_pos (by omega), hasBit, hasBit, hsum,
      Nat.testBit_two_pow_add_gt hk, Nat.testBit_add_one]
  · have hbit : hasBit (v / 2 + 0x80) 7 = true := by
      rw [hasBit, hsum, Nat.testBit_two_pow_add_eq, Nat.testBit_lt_two_pow (by omega)]
      rfl
    rw [button, hbit]
    rfl
  · rw [button, button, if_neg (by omega), if_neg (by omega)]

/-- Once the strobe has fallen, each read of the port moves its register on, and nothing else
does. -/
theorem shifted_foldr (port : Port) {j : Joypad} (hstrobe : j.strobe = false) (since : List PadAct)
    (hlow : ∀ data, .strobe data ∈ since → hasBit data 0 = false) :
    (since.foldr (onPad port) j).strobe = false ∧
    ∀ k, button (since.foldr (onPad port) j).shift k =
      button j.shift (since.count (.read port) + k) := by
  induction since with
  | nil => exact ⟨hstrobe, fun k => by rw [List.foldr_nil, List.count_nil, Nat.zero_add]⟩
  | cons act since ih =>
    obtain ⟨hs, hshift⟩ := ih fun data h => hlow data (List.mem_cons_of_mem _ h)
    rw [List.foldr_cons, List.count_cons]
    generalize since.foldr (onPad port) j = i at hs hshift
    cases act with
    | hold port' buttons =>
      simp only [onPad, apply_ite Joypad.strobe, apply_ite Joypad.shift, Joypad.hold, ite_self]
      exact ⟨hs, hshift⟩
    | strobe data =>
      have hbit := hlow data List.mem_cons_self
      simp only [onPad, Joypad.write, hbit]
      exact ⟨trivial, hshift⟩
    | read port' =>
      by_cases hport : port' = port
      · subst hport
        have hread : i.read.2 = { i with shift := i.shift / 2 + 0x80 } := by simp [Joypad.read, hs]
        simp only [onPad, if_true, hread, beq_self_eq_true]
        refine ⟨hs, fun k => ?_⟩
        rw [button_shifted, hshift]
        congr 1
        omega
      · have hne : (PadAct.read port' == PadAct.read port) = false := by simpa using hport
        simp only [onPad, if_neg hport, hne]
        exact ⟨hs, hshift⟩

theorem onPad_other {port' : Port} (h : port' ≠ port) (j : Joypad) :
    onPad port (.read port') j = j := if_neg h

/-- Reads of another port do not show. -/
theorem foldr_filter {port' : Port} (h : port' ≠ port) (past : List PadAct) :
    (past.filter (· ≠ .read port')).foldr (onPad port) start =
      past.foldr (onPad port) start := by
  induction past with
  | nil => rfl
  | cons act past ih =>
    by_cases hact : act = .read port'
    · rw [List.filter_cons_of_neg (by simpa using hact), ih, List.foldr_cons, hact, onPad_other h]
    · rw [List.filter_cons_of_pos (by simpa using hact), List.foldr_cons, List.foldr_cons, ih]

end PadAct

namespace Console
open PadAct

/-- Every read is answered. While the strobe is set it gives the button A held on that port; after
the strobe fell the `k`-th read of the port gives button `k` as its register took the buttons last.
These are the buttons held at the fall, if none were set on the port in between. Reads of one port
do not show on the other. -/
theorem pads_follow_protocol (c : Console) (port : Port) :
    (∀ past, strobed (c.pad port) past = true →
      c.answer? port past = some (0x40 + button (held port (c.pad port) past) 0)) ∧
    (∀ since low high, strobed (c.pad port) high = true → hasBit low 0 = false →
      (∀ data, .strobe data ∈ since → hasBit data 0 = false) →
      c.answer? port (since ++ .strobe low :: high) =
        some (0x40 + button (taken port (c.pad port) high) (since.count (.read port)))) ∧
    (∀ later act earlier, loads port (c.pad port) act earlier = true →
      (∀ buttons, .hold port buttons ∉ later) →
      taken port (c.pad port) (later ++ act :: earlier) =
        held port (c.pad port) (later ++ act :: earlier)) ∧
    ∀ past port', port' ≠ port →
      c.answer? port (past.filter (· ≠ .read port')) = c.answer? port past := by
  refine ⟨fun past hset => ?_, fun since low high hset hlow hsince => ?_,
    fun later act earlier hload => taken_eq_held hload later, fun past port' hport => ?_⟩
  · have hstrobe := (strobe_foldr port (c.pad port) past).trans hset
    rw [answer?_eq, button_zero, ← held_foldr, Joypad.read, if_pos hstrobe]
  · have hshift : (high.foldr (onPad port) (c.pad port)).shift = taken port (c.pad port) high :=
      shift_foldr hset
    have hfallen : ((high.foldr (onPad port) (c.pad port)).write low).strobe = false := hlow
    have hkept : ((high.foldr (onPad port) (c.pad port)).write low).shift =
        taken port (c.pad port) high := by simp [Joypad.write, hlow, hshift]
    obtain ⟨hs, hbutton⟩ := shifted_foldr port hfallen since hsince
    have hfirst := hbutton 0
    rw [button_zero, Nat.add_zero, hkept] at hfirst
    rw [answer?_eq, List.foldr_append, List.foldr_cons, ← hfirst, Joypad.read]
    simp only [onPad, hs, Bool.false_eq_true, if_false]
  · rw [answer?_eq, answer?_eq, foldr_filter hport]

/-- A strobe that rises, is read once, and falls, then two reads among other acts. -/
theorem pads_follow_protocol_third :
    strobed ((wire idleCartridge {}).pad .second) [.read .second, .hold .second 0xA5, .strobe 3] =
      true ∧
    (wire idleCartridge {}).answer? .second
      ([.read .second, .hold .second 0, .read .first, .strobe 2, .read .second] ++
        .strobe 0 :: [.read .second, .hold .second 0xA5, .strobe 3]) = some 0x41 := by
  have hset : strobed ((wire idleCartridge {}).pad .second)
      [.read .second, .hold .second 0xA5, .strobe 3] = true := by decide
  have hsince : ∀ data, PadAct.strobe data ∈
      [PadAct.read .second, .hold .second 0, .read .first, .strobe 2, .read .second] →
        hasBit data 0 = false := by
    intro data h
    have hdata : data = 2 := by simpa using h
    rw [hdata]
    decide
  exact ⟨hset, (pads_follow_protocol (wire idleCartridge {}) .second).2.1 _ 0 _ hset (by decide)
    hsince⟩

/-- Buttons that are set under a strobe, with no read before it falls, are missed: the first read
gives A as it was before. -/
theorem late_buttons_missed :
    strobed ((wire idleCartridge {}).pad .first) [.hold .first 1, .strobe 1] = true ∧
    held .first ((wire idleCartridge {}).pad .first) [.hold .first 1, .strobe 1] = 1 ∧
    (wire idleCartridge {}).answer? .first [.strobe 0, .hold .first 1, .strobe 1] = some 0x40 ∧
    (0x40 : UInt8) ≠ 0x40 + button 1 0 := by
  refine ⟨by decide, by decide, ?_, by decide⟩
  rw [answer?_eq]
  decide

end Console

end NesConsole
