import NesConsole.FlatMemory
import NesConsole.Proofs.IdleLoop
import NesConsole.Proofs.Picture.OverMemory

/-! Buses over a memory that may refuse. What a dot does there when it succeeds is what it does over
the same memory without refusals, a function of the picture unit alone. -/
namespace NesConsole

/-- A bus over a memory: a read that is answered shows the byte that stands there, and all bytes
stay as they are. -/
class MemoryBus (β : Type) [Bus β] where
  byteAt : β → UInt16 → UInt8
  of_read {address : UInt16} {b b' : β} {byte : UInt8} :
    (Bus.read address : EStateM BusError β UInt8) b = .ok byte b' →
      byte = byteAt b address ∧ byteAt b' = byteAt b

instance {size : Nat} : MemoryBus (FlatMemory size) where
  byteAt m address := m.get (UInt16.ofNat (address.toNat % size)).toNat
  of_read h := by
    dsimp only [Bus.read] at h
    split at h
    · cases h
    · cases h
      exact ⟨rfl, rfl⟩

instance : MemoryBus VideoBus where
  byteAt := VideoBus.byteAt
  of_read {address b b' byte} h := by
    dsimp only [Bus.read] at h
    cases hr : b.read address with
    | error e =>
      rw [hr] at h
      cases h
    | ok byte' =>
      rw [hr] at h
      cases h
      exact ⟨by rw [VideoBus.byteAt, hr]; rfl, rfl⟩

def Follows {ε σ α : Type} (x y : EStateM ε σ α) : Prop := ∀ s a t, x s = .ok a t → y s = .ok a t

namespace Follows
variable {ε σ κ κ' β α δ : Type}

theorem refl (x : EStateM ε σ α) : Follows x x := fun _ _ _ h => h

theorem bind {x y : EStateM ε σ δ} {f g : δ → EStateM ε σ α} (h : Follows x y)
    (hf : ∀ d, Follows (f d) (g d)) : Follows (x >>= f) (y >>= g) := by
  intro s a t hs
  obtain ⟨d, s', hx, hrest⟩ := of_bind_ok hs
  rw [bind_ok (h s d s' hx)]
  exact hf d s' a t hrest

theorem ite {p : Prop} [Decidable p] {x x' y y' : EStateM ε σ α} (hx : Follows x x')
    (hy : Follows y y') : Follows (if p then x else y) (if p then x' else y') := by
  split
  · exact hx
  · exact hy

theorem forM {ι : Type} (l : List ι) {f g : ι → EStateM ε σ PUnit}
    (h : ∀ i, Follows (f i) (g i)) : Follows (l.forM f) (l.forM g) := by
  induction l with
  | nil => exact refl _
  | cons i l ih => exact bind (h i) fun _ => ih

theorem onBus {x y : EStateM ε β α} (h : Follows x y) :
    Follows (Wired.onBus (κ := κ) x) (Wired.onBus y) := by
  intro ⟨c, b⟩ a t hs
  dsimp only [Wired.onBus] at hs ⊢
  cases hx : x b with
  | ok d b' =>
    rw [hx] at hs
    rw [h b d b' hx]
    exact hs
  | error e b' =>
    rw [hx] at hs
    cases hs

theorem onPart {get : κ → κ'} {put : κ' → κ → κ} {x y : EStateM ε (Wired κ' β) α}
    (h : Follows x y) : Follows (Wired.onPart get put x) (Wired.onPart get put y) := by
  intro ⟨c, b⟩ a t hs
  dsimp only [Wired.onPart] at hs ⊢
  cases hx : x ⟨get c, b⟩ with
  | ok d w =>
    rw [hx] at hs
    rw [h _ d w hx]
    exact hs
  | error e w =>
    rw [hx] at hs
    cases hs

end Follows

namespace MemoryBus
section
variable {β : Type} [Bus β] [MemoryBus β]

def answer (address : UInt16) : EStateM BusError β UInt8 := fun b =>
  match (Bus.read address : EStateM BusError β UInt8) b with
  | .ok byte b' => .ok byte b'
  | .error _ _ => .ok (byteAt b address) b

@[reducible] def answering (β : Type) [Bus β] [MemoryBus β] : Bus β where
  read := answer
  write := Bus.write

theorem follows_answer (address : UInt16) :
    Follows (Bus.read address : EStateM BusError β UInt8) (answer address) := by
  intro b byte b' hb
  unfold answer
  rw [hb]

theorem steady_answering (mem : UInt16 → UInt8) :
    @Steady β (answering β) mem fun b => byteAt b = mem := by
  rintro address b rfl
  change ∃ b', answer address b = .ok (byteAt b address) b' ∧ _
  unfold answer
  cases hr : (Bus.read address : EStateM BusError β UInt8) b with
  | ok byte b' =>
    obtain ⟨rfl, hsame⟩ := of_read hr
    exact ⟨b', rfl, hsame⟩
  | error e b' => exact ⟨b, rfl, rfl⟩

theorem follows_read {κ : Type} (address : UInt16) :
    Follows (Wired.read address : EStateM BusError (Wired κ β) UInt8)
      (@Wired.read κ β (answering β) address) :=
  .onBus (follows_answer address)

end
end MemoryBus

namespace Ppu
open MemoryBus (byteAt answering follows_read steady_answering)
section
variable {β : Type} [Bus β] [MemoryBus β]

theorem follows_fetchTile : Follows (fetchTile : EStateM BusError (Wired Ppu β) Tile)
    (@fetchTile β (answering β)) := by
  refine .bind (.refl _) fun v => ?_
  refine .bind (follows_read v.tileAddress) fun name => ?_
  refine .bind (follows_read v.attributeAddress) fun palettes => ?_
  refine .bind (.refl _) fun table => ?_
  refine .bind (follows_read _) fun low => ?_
  exact .bind (follows_read _) fun high => .refl _

theorem follows_fetchBackground :
    Follows (fetchBackground : EStateM BusError (Wired Ppu β) Unit)
      (@fetchBackground β (answering β)) := by
  refine .bind (.refl _) fun beam => .ite ?next (.ite (.refl _) (.ite ?first (.refl _)))
  case next | first => exact .bind follows_fetchTile fun tile => .refl _

theorem follows_readPattern (address : Nat) :
    Follows (SpriteLine.readPattern address : EStateM BusError (Wired SpriteLine β) UInt8)
      (@SpriteLine.readPattern β (answering β) address) :=
  .ite (follows_read _) (.refl _)

theorem follows_draw (oam : ObjectMemory) (scanline height : Nat) (table : UInt16) (i : Fin 64) :
    Follows (SpriteLine.draw (β := β) oam scanline height table i)
      (@SpriteLine.draw β (answering β) oam scanline height table i) := by
  refine .bind (.refl _) fun _ => ?_
  refine .bind (follows_readPattern _) fun low => ?_
  exact .bind (follows_readPattern _) fun high => .refl _

theorem follows_evaluate (oam : ObjectMemory) (scanline height : Nat) (table : UInt16) :
    Follows (SpriteLine.evaluate (β := β) oam scanline height table)
      (@SpriteLine.evaluate β (answering β) oam scanline height table) := by
  have hdraws : Follows _ _ :=
    .forM ((SpriteLine.covering oam scanline height).take 8)
      fun i => follows_draw (β := β) oam scanline height table i
  have hrest := hdraws.bind fun _ =>
    .refl (pure (decide (8 < (SpriteLine.covering oam scanline height).length)))
  exact .ite (.bind (.refl _) fun _ => hrest)
    (.bind (.refl _) fun _ => .bind (.refl _) fun _ => hrest)

theorem follows_prepareSprites :
    Follows (prepareSprites : EStateM BusError (Wired Ppu β) Unit)
      (@prepareSprites β (answering β)) := by
  refine .bind (.refl _) fun rendering => .ite ?_ (.refl _)
  refine .bind (.refl _) fun p => ?_
  exact .bind (.onPart (follows_evaluate _ _ _ _)) fun overflow => .refl _

theorem follows_renderPixel : Follows (renderPixel : EStateM BusError (Wired Ppu β) Unit)
    (@renderPixel β (answering β)) := by
  refine .bind (.refl _) fun beam => ?_
  cases beam.pixel? with
  | none => exact .refl _
  | some i => exact .bind (.refl _) fun _ => .bind (follows_read _) fun _ => .refl _

theorem follows_step : Follows (step : EStateM BusError (Wired Ppu β) Tick)
    (@step β (answering β)) := by
  rw [step_stages, @step_stages β (answering β)]
  refine .bind (.refl _) fun tick => .bind (.refl _) fun _ => ?_
  refine .bind (.refl _) fun rendering => .bind (.refl _) fun beam => ?_
  refine .bind ?stages fun _ => .refl _
  refine .bind (.ite follows_prepareSprites (.refl _)) fun _ => ?_
  refine .bind (.ite follows_fetchBackground (.refl _)) fun _ => ?_
  exact .bind follows_renderPixel fun _ => .refl _

/-- A dot that succeeds is a function of the picture unit and the memory. -/
theorem chip_of_step {w w' : Wired Ppu β} {t : Tick} (h : step w = .ok t w') :
    w'.chip = w.chip.stepFrom (byteAt w.bus) := by
  obtain ⟨b, hb, -⟩ := @does_step β (answering β) _ _ (steady_answering (byteAt w.bus)) w.chip
    w.bus rfl
  cases (follows_step w t w' h).symm.trans hb
  rfl

end
end Ppu
end NesConsole
