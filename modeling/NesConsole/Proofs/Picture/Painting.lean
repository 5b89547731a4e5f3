import NesConsole.Proofs.Picture.StatusHistory

/-! What may be done to a picture unit and what of it reaches the picture. A dot of the picture puts
a color of its own choice into the entry under the beam, whatever picture it finds; nothing else
reaches an entry. -/
namespace NesConsole
namespace Ppu

/-! ### Acts, refused or not -/

def finish {ε σ α : Type} (x : EStateM ε σ α) (s : σ) : σ :=
  match x s with
  | .ok _ s' => s'
  | .error _ s' => s'

theorem finish_of_goes {ε σ α : Type} {x : EStateM ε σ α} {P P' : σ → Prop} {s : σ}
    (h : Goes P x P') (hs : P s) : P' (finish x s) := by
  have hr := h s hs
  unfold finish
  cases hx : x s <;> rw [hx] at hr <;> exact hr

section
variable {β : Type} [Bus β]

def Act.after : Act β → Wired Ppu β → Wired Ppu β
  | .dot, w => finish step w
  | .read address, w => finish (readRegister address) w
  | .write address data, w => finish (writeRegister address data) w
  | .objects block, w => ⟨w.chip.writeObjects block, w.bus⟩
  | .reset, w => ⟨w.chip.reset, w.bus⟩
  | .rewire bus, w => ⟨w.chip, bus⟩

def Deed.tick? (d : Deed β) : Option Tick :=
  match d.act, step d.before with
  | .dot, .ok t _ => some t
  | _, _ => none

def Deed.isTick (d : Deed β) : Bool := d.tick?.isSome

theorem Deed.tick?_eq_some {d : Deed β} {t : Tick} :
    d.tick? = some t ↔ d.act = .dot ∧ ∃ w', step d.before = .ok t w' := by
  obtain ⟨a, w⟩ := d
  unfold tick?
  cases a <;> cases hs : step w <;> simp

end

/-! ### Programs that do not see the picture -/

def repaint (picture : Vector UInt32 (256 * 240)) (p : Ppu) : Ppu := { p with picture := picture }

section
variable {β : Type}

def repainted (picture : Vector UInt32 (256 * 240)) (w : Wired Ppu β) : Wired Ppu β :=
  ⟨w.chip.repaint picture, w.bus⟩

/-- The same outcome from another picture, to which success has done `paint`. -/
def landed {α : Type} (paint : Vector UInt32 (256 * 240) → Vector UInt32 (256 * 240))
    (picture : Vector UInt32 (256 * 240)) :
    EStateM.Result BusError (Wired Ppu β) α → EStateM.Result BusError (Wired Ppu β) α
  | .ok a w => .ok a (repainted (paint picture) w)
  | .error e w => .error e (repainted picture w)

/-- The program neither looks at the picture nor changes it. -/
def Blind {α : Type} (x : EStateM BusError (Wired Ppu β) α) : Prop :=
  ∀ w picture, x (repainted picture w) = landed id picture (x w)

namespace Blind
variable {α δ κ : Type}

theorem pure (a : α) : Blind (β := β) (Pure.pure a) := fun _ _ => rfl

theorem bind {x : EStateM BusError (Wired Ppu β) δ} {f : δ → EStateM BusError (Wired Ppu β) α}
    (hx : Blind x) (hf : ∀ a, Blind (f a)) : Blind (x >>= f) := by
  intro w picture
  have hp := hx w picture
  cases hr : x w <;> rw [hr] at hp
  case ok d w₁ =>
    rw [bind_ok hr, bind_ok hp]
    exact hf d w₁ picture
  case error =>
    rw [bind_error hr, bind_error hp]
    rfl

theorem look {f : Ppu → α} (h : ∀ picture p, f (repaint picture p) = f p) :
    Blind (β := β) (Wired.look f) :=
  fun w picture => congrArg (EStateM.Result.ok · (repainted picture w)) (h picture w.chip)

theorem update {f : Ppu → Ppu} (h : ∀ picture p, f (repaint picture p) = repaint picture (f p)) :
    Blind (β := β) (Wired.update f) := by
  intro w picture
  change EStateM.Result.ok () (Wired.mk (f (repaint picture w.chip)) w.bus) = _
  rw [h]
  rfl

theorem onPart {get : Ppu → κ} {put : κ → Ppu → Ppu} (x : EStateM BusError (Wired κ β) α)
    (hget : ∀ picture p, get (repaint picture p) = get p)
    (hput : ∀ picture k p, put k (repaint picture p) = repaint picture (put k p)) :
    Blind (Wired.onPart get put x) := by
  intro ⟨p, b⟩ picture
  dsimp only [Wired.onPart, repainted]
  rw [hget]
  cases x ⟨get p, b⟩ <;>
    · dsimp only
      rw [hput]
      rfl

theorem read [Bus β] (address : UInt16) : Blind (β := β) (Wired.read address) := by
  intro ⟨p, b⟩ picture
  dsimp only [Wired.read, Wired.onBus, repainted]
  cases (Bus.read address : EStateM BusError β UInt8) b <;> rfl

theorem ite {c : Prop} [Decidable c] {x y : EStateM BusError (Wired Ppu β) α} (hx : Blind x)
    (hy : Blind y) : Blind (if c then x else y) := by
  split
  · exact hx
  · exact hy

end Blind
end

section
variable {β : Type} [Bus β]

theorem blind_prepareSprites :
    Blind (prepareSprites : EStateM BusError (Wired Ppu β) Unit) := by
  refine .bind (.look fun _ _ => rfl) fun rendering => .ite ?_ (.update fun _ _ => rfl)
  refine .bind (.look fun _ _ => rfl) fun p =>
    .bind (.onPart _ (fun _ _ => rfl) fun _ _ _ => rfl) fun overflow => ?_
  exact .ite (.update fun _ _ => rfl) (.pure _)

theorem blind_fetchTile : Blind (fetchTile : EStateM BusError (Wired Ppu β) Tile) := by
  refine .bind (.look fun _ _ => rfl) fun v => ?_
  refine .bind (.read v.tileAddress) fun name => ?_
  refine .bind (.read v.attributeAddress) fun palettes => ?_
  refine .bind (.look fun _ _ => rfl) fun table => ?_
  refine .bind (.read _) fun low => ?_
  exact .bind (.read _) fun high => .pure _

theorem blind_fetchBackground :
    Blind (fetchBackground : EStateM BusError (Wired Ppu β) Unit) := by
  refine .bind (.look fun _ _ => rfl) fun beam => .ite ?_ (.ite ?_ (.ite ?_ (.pure _)))
  · exact .bind blind_fetchTile fun _ => .update fun _ _ => rfl
  · exact .update fun _ _ => rfl
  · exact .bind blind_fetchTile fun _ => .update fun _ _ => rfl

omit [Bus β] in
theorem blind_chooseCell (x : Nat) :
    Blind (chooseCell x : EStateM BusError (Wired Ppu β) UInt16) := by
  refine .bind (.look fun _ _ => rfl) fun rendering => .ite ?_ (.look fun _ _ => rfl)
  refine .bind (.look fun _ _ => rfl) fun hit => .ite ?_ (.look fun _ _ => rfl)
  exact .bind (.update fun _ _ => rfl) fun _ => .look fun _ _ => rfl

end

theorem repaint_beginDot (picture : Vector UInt32 (256 * 240)) (p : Ppu) :
    beginDot (repaint picture p) = repaint picture (beginDot p) := by
  have hbeam : (repaint picture p).beam = p.beam := rfl
  simp only [beginDot, hbeam]
  split
  · rfl
  · split <;> rfl

theorem repaint_advance (rendering : Bool) (picture : Vector UInt32 (256 * 240)) (p : Ppu) :
    advance rendering (repaint picture p) = repaint picture (advance rendering p) := by
  have hbeam : (repaint picture p).beam = p.beam := rfl
  have hodd : (repaint picture p).oddFrame = p.oddFrame := rfl
  simp only [advance, hbeam, hodd]
  split <;> rfl

/-! ### A dot is one stroke -/

/-- What a dot with the beam at `b` does to a picture: a color of the dot's choice goes to the entry
under the beam, if there is one. -/
def Stroke (b : Beam) (paint : Vector UInt32 (256 * 240) → Vector UInt32 (256 * 240)) : Prop :=
  ∃ color, ∀ picture i,
    (paint picture).get i = if b.pixel? = some i then color else picture.get i

theorem exists_stroke (b : Beam) : ∃ paint, Stroke b paint :=
  ⟨fun picture => .ofFn fun i => if b.pixel? = some i then 0 else picture.get i, 0,
    fun _ _ => Vector.getElem_ofFn _⟩

section
variable {β α δ : Type} {b : Beam}

/-- From a unit with the beam at `b` success is one stroke, the same for any picture; a refusal
leaves the picture. -/
def Paints (b : Beam) (x : EStateM BusError (Wired Ppu β) α) : Prop :=
  ∀ w, w.chip.beam = b → ∃ paint, Stroke b paint ∧
    ∀ picture, x (repainted picture w) = landed paint picture (x w)

theorem Paints.after {x : EStateM BusError (Wired Ppu β) δ}
    {f : δ → EStateM BusError (Wired Ppu β) α} (hx : Blind x) (hbeam : KeepsView (·.beam) x)
    (hf : ∀ a, Paints b (f a)) : Paints b (x >>= f) := by
  intro w hw
  have hb := hbeam _ w hw
  cases hr : x w <;> rw [hr] at hb
  case ok d w₁ =>
    obtain ⟨paint, hstroke, hpaint⟩ := hf d w₁ hb
    refine ⟨paint, hstroke, fun picture => ?_⟩
    rw [bind_ok hr, bind_ok ((hx w picture).trans (congrArg _ hr))]
    exact hpaint picture
  case error =>
    obtain ⟨paint, hstroke⟩ := exists_stroke b
    refine ⟨paint, hstroke, fun picture => ?_⟩
    rw [bind_error hr, bind_error ((hx w picture).trans (congrArg _ hr))]
    rfl

/-- What follows the stroke has to succeed, for a refusal there would not take the stroke back. -/
theorem Paints.before {x : EStateM BusError (Wired Ppu β) δ}
    {f : δ → EStateM BusError (Wired Ppu β) α} (hx : Paints b x) (hf : ∀ a, Blind (f a))
    (hok : ∀ a w, ∃ c w', f a w = .ok c w') : Paints b (x >>= f) := by
  intro w hw
  obtain ⟨paint, hstroke, hpaint⟩ := hx w hw
  refine ⟨paint, hstroke, fun picture => ?_⟩
  have hp := hpaint picture
  cases hr : x w <;> rw [hr] at hp
  case ok d w₁ =>
    obtain ⟨c, w₂, hc⟩ := hok d w₁
    rw [bind_ok hr, bind_ok hp, hf d w₁ (paint picture), hc]
    rfl
  case error =>
    rw [bind_error hr, bind_error hp]
    rfl

theorem Paints.look_beam {f : Beam → EStateM BusError (Wired Ppu β) α} (hf : Paints b (f b)) :
    Paints b (Wired.look (·.beam) >>= f) := by
  rintro w rfl
  exact hf w rfl

variable [Bus β]

theorem paints_renderPixel (b : Beam) :
    Paints b (renderPixel : EStateM BusError (Wired Ppu β) Unit) := by
  refine .look_beam ?_
  cases hb : b.pixel? with
  | none =>
    intro w _
    refine ⟨id, ⟨0, fun picture i => ?_⟩, fun _ => rfl⟩
    rw [hb, if_neg (Option.some_ne_none i).symm, id]
  | some i =>
    refine .after (blind_chooseCell _) (keepsView_chooseCell (fun _ => rfl) _) fun cell =>
      .after (.read cell) (.read cell) fun entry w _ => ?_
    refine ⟨fun picture => (drawPixel i entry (repaint picture w.chip)).picture,
      ⟨colorOf (if w.chip.mask.greyscale then entry &&& 0x30 else entry), fun picture j => ?_⟩,
      fun _ => rfl⟩
    rw [hb]
    split
    case isTrue hj =>
      cases hj
      exact Vector.getElem_set_self _
    case isFalse hj =>
      exact Vector.getElem_set_ne i.isLt j.isLt fun he => hj (congrArg some (Fin.ext he))

theorem paints_step (b : Beam) : Paints b (step : EStateM BusError (Wired Ppu β) Tick) := by
  have hbegin (p : Ppu) : (beginDot p).beam = p.beam := congrArg Timing.beam (timing_beginDot p)
  rw [step_stages]
  refine .after (.look fun _ _ => rfl) (.look _) fun t => ?_
  refine .after (.update repaint_beginDot) (.update hbegin) fun _ => ?_
  refine .after (.look fun _ _ => rfl) (.look _) fun rendering => ?_
  refine .after (.look fun _ _ => rfl) (.look _) fun beam => ?_
  refine .before ?_ (fun _ => .bind (.update (repaint_advance rendering)) fun _ => .pure t)
    fun _ w => ⟨_, _, rfl⟩
  refine .after (.ite blind_prepareSprites (.pure _))
    (.ite (keepsView_prepareSprites (fun _ _ => rfl) fun _ => rfl) (.pure _)) fun _ => ?_
  refine .after (.ite blind_fetchBackground (.pure _))
    (.ite (keepsView_fetchBackground fun _ _ _ => rfl) (.pure _)) fun _ => ?_
  refine .before (paints_renderPixel b) (fun _ => .ite (.update fun _ _ => rfl) (.pure _))
    fun _ w => ?_
  unfold shiftStage
  split
  · exact ⟨_, _, rfl⟩
  · exact ⟨_, _, rfl⟩

end

/-! ### Which entries an act reaches -/

section
variable {β : Type} [Bus β]

/-- The deed puts a color into entry `i`, the same whatever the picture was. -/
def Writes (d : Deed β) (i : Fin (256 * 240)) : Prop :=
  ∃ color, ∀ picture, (d.act.after (repainted picture d.before)).chip.picture.get i = color

def Leaves (d : Deed β) (i : Fin (256 * 240)) : Prop :=
  ∀ picture, (d.act.after (repainted picture d.before)).chip.picture.get i = picture.get i

/-- Of all that may be done to a unit, only a dot that succeeds reaches the picture. -/
theorem leaves_of_not_tick {d : Deed β} (h : d.isTick = false) (i : Fin (256 * 240)) :
    Leaves d i := by
  obtain ⟨a, w⟩ := d
  intro picture
  cases a with
  | dot =>
    obtain ⟨paint, -, hpaint⟩ := paints_step w.chip.beam w rfl
    have hp := hpaint picture
    simp only [Deed.isTick, Deed.tick?] at h
    cases hs : step w <;> rw [hs] at hp h
    case ok => cases h
    case error =>
      change (finish step (repainted picture w)).chip.picture.get i = picture.get i
      rw [finish, hp]
      rfl
  | read address =>
    have hkeeps : KeepsView (·.picture)
        (readRegister address : EStateM BusError (Wired Ppu β) UInt8) :=
      keepsView_readRegister (fun _ _ => rfl) (fun _ _ => rfl) fun _ _ => rfl
    exact congrArg (Vector.get · i) (finish_of_goes (hkeeps picture) rfl)
  | write address data =>
    have hkeeps := (keepsView_writeRegister (β := β) address data).map fun v => v.2.2.1
    exact congrArg (Vector.get · i) (finish_of_goes (hkeeps picture) rfl)
  | objects | reset | rewire => rfl

/-- A dot that succeeds writes the entry under the beam and leaves all others. -/
theorem reach_of_tick {d : Deed β} (h : d.isTick = true) (i : Fin (256 * 240)) :
    if d.before.chip.beam.pixel? = some i then Writes d i else Leaves d i := by
  obtain ⟨a, w⟩ := d
  obtain ⟨t, ht⟩ := Option.isSome_iff_exists.1 h
  obtain ⟨ha, w', hs⟩ := Deed.tick?_eq_some.1 ht
  obtain rfl : a = .dot := ha
  obtain ⟨paint, ⟨color, hcolor⟩, hpaint⟩ := paints_step w.chip.beam w rfl
  have hpicture (picture) : (finish step (repainted picture w)).chip.picture = paint picture := by
    rw [finish, hpaint picture, hs]
    rfl
  split
  case isTrue hi =>
    refine ⟨color, fun picture => ?_⟩
    change (finish step (repainted picture w)).chip.picture.get i = color
    rw [hpicture, hcolor, if_pos hi]
  case isFalse hi =>
    intro picture
    change (finish step (repainted picture w)).chip.picture.get i = picture.get i
    rw [hpicture, hcolor, if_neg hi]

end
end Ppu
end NesConsole
