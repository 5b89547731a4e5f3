import NesConsole.Proofs.Picture.BusUse
import NesConsole.Proofs.Picture.OverMemory

/-! The addresses of a dot. It reads and never writes: first the patterns of the sprites of the
line, then a tile with its attributes and the two planes of its row, then the palette cell under the
beam, each in its own part of the address space. -/
namespace NesConsole

/-! ### Where the parts of a picture stand -/

namespace ScrollAddress

def table (s : ScrollAddress) : Fin 4 := ⟨s.tableY.val * 2 + s.tableX.val, by omega⟩

theorem toNat_tileAddress (s : ScrollAddress) : s.tileAddress.toNat =
    0x2000 + s.table.val * 0x400 + s.coarseY.val * 32 + s.coarseX.val := by
  have hx := s.coarseX.isLt
  have hy := s.coarseY.isLt
  have htable := s.table.isLt
  have hoffset : s.tableOffset = s.table.val * 0x400 := rfl
  rw [tileAddress, hoffset, UInt16.toNat_ofNat', Nat.mod_eq_of_lt (by omega)]

theorem toNat_attributeAddress (s : ScrollAddress) : s.attributeAddress.toNat =
    0x23C0 + s.table.val * 0x400 + s.coarseY.val / 4 * 8 + s.coarseX.val / 4 := by
  have hx := s.coarseX.isLt
  have hy := s.coarseY.isLt
  have htable := s.table.isLt
  have hoffset : s.tableOffset = s.table.val * 0x400 := rfl
  rw [attributeAddress, hoffset, UInt16.toNat_ofNat', Nat.mod_eq_of_lt (by omega)]

end ScrollAddress

/-- The addresses of a tile: its name and, from the last 64 bytes of the same name table, its
attributes, then the two planes of one of its rows. -/
structure TileAddresses (table : Fin 4) (name attributes low high : UInt16) : Prop where
  name : 0x2000 + table.val * 0x400 ≤ name.toNat ∧ name.toNat ≤ 0x23FF + table.val * 0x400
  attributes : 0x23C0 + table.val * 0x400 ≤ attributes.toNat ∧
    attributes.toNat ≤ 0x23FF + table.val * 0x400
  low : low.toNat < 0x2000
  high : high.toNat < 0x2000

def SpriteReads (l : List UInt16) : Prop := ∀ a ∈ l, a.toNat < 0x2000

def TileReads (l : List UInt16) : Prop := ∃ table name attributes low high,
  TileAddresses table name attributes low high ∧ l <+: [name, attributes, low, high]

def IsCell (rendering : Bool) (cell : UInt16) : Prop :=
  0x3F00 ≤ cell.toNat ∧ cell.toNat ≤ if rendering then 0x3F1F else 0x3FFF

def CellReads (rendering : Bool) (l : List UInt16) : Prop :=
  ∃ cell, IsCell rendering cell ∧ l <+: [cell]

def DotReads (rendering : Bool) : List UInt16 → Prop :=
  Followed SpriteReads (Followed TileReads (CellReads rendering))

theorem CellReads.nil (rendering : Bool) : CellReads rendering [] := by
  refine ⟨0x3F00, ⟨Nat.le_refl _, ?_⟩, List.nil_prefix⟩
  cases rendering <;> decide

theorem TileReads.nil : TileReads [] :=
  ⟨0, 0x2000, 0x23C0, 0, 0, by constructor <;> decide, List.nil_prefix⟩

/-- No dot reads behind the 14 lines of the bus. -/
theorem DotReads.lt {rendering : Bool} {l : List UInt16} (h : DotReads rendering l) :
    ∀ a ∈ l, a.toNat < 0x4000 := by
  obtain ⟨sprites, _, rfl, hsprites, tile, pixel, rfl, ⟨table, _, _, _, _, h, htile⟩, cell,
    ⟨-, hcell⟩, hpixel⟩ := h
  obtain ⟨⟨-, hname⟩, ⟨-, hattributes⟩, hlow, hhigh⟩ := h
  have htable := table.isLt
  intro a ha
  simp only [List.mem_append] at ha
  rcases ha with ha | ha | ha
  · exact Nat.lt_of_lt_of_le (hsprites a ha) (by decide)
  · have ha := htile.subset ha
    simp only [List.mem_cons, List.not_mem_nil, or_false] at ha
    rcases ha with rfl | rfl | rfl | rfl <;> omega
  · obtain rfl := List.mem_singleton.1 (hpixel.subset ha)
    cases rendering <;> simp at hcell <;> omega

namespace Ppu

def rowAddress (p : Ppu) (name : UInt8) : UInt16 :=
  p.control.backgroundTable + UInt16.ofNat (name.toNat * 16 + p.v.fineY.val)

theorem tileAddresses (p : Ppu) (name : UInt8) : TileAddresses p.v.table p.v.tileAddress
    p.v.attributeAddress (p.rowAddress name) (p.rowAddress name + 8) := by
  have hx := p.v.coarseX.isLt
  have hy := p.v.coarseY.isLt
  have hrow : (p.rowAddress name).toNat =
      p.control.backgroundTable.toNat + (name.toNat * 16 + p.v.fineY.val) ∧
      (p.rowAddress name).toNat + 8 < 0x2000 := by
    have hname := name.toNat_lt
    have hfine := p.v.fineY.isLt
    have htable : p.control.backgroundTable.toNat ≤ 0x1000 := by
      unfold Control.backgroundTable
      split <;> decide
    rw [rowAddress, UInt16.toNat_add, UInt16.toNat_ofNat', Nat.mod_eq_of_lt (by omega),
      Nat.mod_eq_of_lt (by omega)]
    exact ⟨rfl, by omega⟩
  have hhigh : (p.rowAddress name + 8).toNat = (p.rowAddress name).toNat + 8 := by
    rw [UInt16.toNat_add]
    exact Nat.mod_eq_of_lt (by change _ + 8 < _; omega)
  constructor
  · rw [p.v.toNat_tileAddress]
    omega
  · rw [p.v.toNat_attributeAddress]
    omega
  · omega
  · omega

theorem isCell_composedCell (p : Ppu) (x : Nat) : IsCell true (p.composedCell x) := by
  have hcell (base : Nat) (palette color : Fin 4) (h : base = 0x3F00 ∨ base = 0x3F10) :
      IsCell true (UInt16.ofNat (base + palette.val * 4 + color.val)) := by
    rw [IsCell, UInt16.toNat_ofNat', Nat.mod_eq_of_lt (by omega), if_pos rfl]
    omega
  unfold composedCell
  dsimp only
  split
  · exact hcell 0x3F10 _ _ (.inr rfl)
  · split
    · exact hcell 0x3F00 _ _ (.inl rfl)
    · exact ⟨by decide, by decide⟩

theorem isCell_blankCell (p : Ppu) : IsCell false p.blankCell := by
  have hv : p.v.busAddress.toNat < 0x4000 := by
    rw [ScrollAddress.busAddress, UInt16.toNat_ofNat', Nat.mod_eq_of_lt (by omega)]
    exact Nat.mod_lt _ (by decide)
  unfold blankCell
  split
  case isTrue h => exact ⟨UInt16.le_iff_toNat_le.1 h, Nat.le_of_lt_succ hv⟩
  case isFalse => exact ⟨by decide, by decide⟩

end Ppu

/-! ### The stages of a dot -/

section
variable {β : Type} [Bus β]

theorem SpriteLine.reads_draw {oam : ObjectMemory} {scanline : Nat} (c : Control) {i : Fin 64}
    (h : (oam.entry i).covers scanline c.spriteHeight = true) :
    Reads (fun _ => True) (draw (β := Observed β) oam scanline c.spriteHeight c.spriteTable i)
      (fun _ _ => True) SpriteReads := by
  have haddress := Ppu.patternAddress_lt c h
  have hpattern {address : Nat} (h : address < 0x2000) : Reads (fun _ => True)
      (readPattern address : EStateM BusError (Wired SpriteLine (Observed β)) UInt8)
      (fun _ _ => True) SpriteReads := by
    refine .ite (fun _ => .read _ (List.forall_mem_singleton.2 ?_)) fun _ =>
      .throw _ (List.forall_mem_nil _)
    rwa [UInt16.toNat_ofNat', Nat.mod_eq_of_lt (by omega)]
  exact .bind_update (fun _ h => h) (.bind_all (hpattern (by omega)) fun _ =>
    .bind_all (hpattern haddress) fun _ => .update (List.forall_mem_nil _) fun _ h => h)

theorem SpriteLine.reads_evaluate (oam : ObjectMemory) (scanline : Nat) (c : Control) :
    Reads (fun _ => True) (evaluate (β := Observed β) oam scanline c.spriteHeight c.spriteTable)
      (fun _ _ => True) SpriteReads := by
  have hdraws : Reads (fun _ => True)
      (((covering oam scanline c.spriteHeight).take 8).forM
        (draw (β := Observed β) oam scanline c.spriteHeight c.spriteTable))
      (fun _ _ => True) SpriteReads :=
    .forM_all fun i hi => reads_draw c (List.mem_filter.1 (List.mem_of_mem_take hi)).2
  refine .ite (fun _ => ?_) fun _ => .bind_all (M := fun _ _ => True)
    (.throw _ (List.forall_mem_nil _)) fun _ => ?_
  all_goals
    exact .bind_update (fun _ h => h) (.bind_all hdraws fun _ =>
      .pure (List.forall_mem_nil _) fun _ h => h)

namespace Ppu
variable {P : Ppu → Prop} {rendering : Bool}

theorem reads_fetchTile : Reads P
    (fetchTile : EStateM BusError (Wired Ppu (Observed β)) Tile) (fun _ => P) TileReads := by
  refine .each fun p hp => .look_at ?_
  refine .bind_read (fun name => [p.v.attributeAddress, p.rowAddress name, p.rowAddress name + 8])
    (fun name => ?_) fun name _ hl => ⟨_, _, _, _, _, p.tileAddresses name, hl⟩
  refine .bind_read (fun _ => [p.rowAddress name, p.rowAddress name + 8])
    (fun palettes => .look_at ?_) fun _ _ hl => hl
  refine .bind_read (fun _ => [p.rowAddress name + 8]) (fun low => ?_) fun _ _ hl => hl
  refine .bind_read (fun _ => []) (fun high => ?_) fun _ _ hl => hl
  exact .pure List.nil_prefix fun c hc => hc ▸ hp

def Draws (rendering : Bool) (p : Ppu) : Prop := p.mask.rendering = rendering

theorem reads_prepareSprites : Reads (Draws rendering)
    (prepareSprites : EStateM BusError (Wired Ppu (Observed β)) Unit) (fun _ => Draws rendering)
      SpriteReads := by
  have hnil : SpriteReads [] := List.forall_mem_nil _
  refine .bind_look fun _ => .ite (fun _ => .bind_look fun _ => ?_) fun _ =>
    .update hnil fun _ h => h.1
  refine .bind_quiet (M := fun _ => Draws rendering)
    (.onPart (SpriteLine.reads_evaluate _ _ _) fun _ _ h => h.1.1) fun _ => ?_
  exact .ite (fun _ => .update rfl fun _ h => h) fun _ => .pure rfl fun _ h => h

theorem reads_fetchBackground : Reads (Draws rendering)
    (fetchBackground : EStateM BusError (Wired Ppu (Observed β)) Unit) (fun _ => Draws rendering)
      TileReads := by
  refine .bind_look fun beam => .ite (fun _ => ?_) fun _ => .ite (fun _ => ?_) fun _ =>
    .ite (fun _ => ?_) fun _ => ?_
  · exact .bind_quiet reads_fetchTile fun _ => .update rfl fun _ h => h.1
  · exact .update .nil fun _ h => h.1
  · exact .bind_quiet reads_fetchTile fun _ => .update rfl fun _ h => h.1
  · exact .pure .nil fun _ h => h.1

omit [Bus β] in
theorem reads_chooseCell (x : Nat) : Reads (Draws rendering)
    (chooseCell x : EStateM BusError (Wired Ppu (Observed β)) UInt16)
    (fun cell p => Draws rendering p ∧ IsCell rendering cell) (· = []) := by
  refine .each fun p hp => .look_at (.ite (fun hdrawn => .look_at (.ite (fun _ => ?_) fun _ => ?_))
    fun hblank => ?_)
  · obtain rfl : true = rendering := hdrawn.symm.trans hp
    exact .bind_update (N := Draws true) (fun _ h => h ▸ hp)
      (.look rfl fun q hq => ⟨hq, q.isCell_composedCell x⟩)
  · obtain rfl : true = rendering := hdrawn.symm.trans hp
    exact .look rfl fun q hq => ⟨hq ▸ hp, q.isCell_composedCell x⟩
  · obtain rfl : false = rendering := (Bool.eq_false_iff.2 hblank).symm.trans hp
    exact .look rfl fun q hq => ⟨hq ▸ hp, q.isCell_blankCell⟩

theorem reads_renderPixel : Reads (Draws rendering)
    (renderPixel : EStateM BusError (Wired Ppu (Observed β)) Unit) (fun _ => Draws rendering)
      (CellReads rendering) := by
  refine .bind_look fun beam => ?_
  cases beam.pixel? with
  | none => exact .pure (.nil _) fun _ h => h.1
  | some i =>
    refine .quiet_bind ((reads_chooseCell beam.dot.val).mono (fun _ h => h.1) (fun _ _ h => h)
      fun _ h => h) (fun cell => .fact fun hcell => ?_) (.nil _)
    refine .bind_read (fun _ => []) (fun entry => ?_) fun _ _ hl => ⟨cell, hcell, hl⟩
    exact .update List.nil_prefix fun _ h => h

theorem reads_drawStages (fetches : Bool) (beam : Beam) : Reads (Draws rendering)
    (drawStages fetches beam : EStateM BusError (Wired Ppu (Observed β)) Unit)
    (fun _ => Draws rendering) (DotReads rendering) := by
  have hpure {S : List UInt16 → Prop} (hS : S []) : Reads (Draws rendering)
      (pure () : EStateM BusError (Wired Ppu (Observed β)) Unit) (fun _ => Draws rendering) S :=
    .pure hS fun _ h => h
  refine .bind_then (M := fun _ => Draws rendering) ?_ (fun _ =>
    .bind_then (M := fun _ => Draws rendering) ?_ (fun _ =>
      .bind_quiet reads_renderPixel fun _ => ?_) (.nil _)) ⟨[], [], rfl, .nil, .nil _⟩
  · exact .ite (fun _ => reads_prepareSprites) fun _ => hpure (List.forall_mem_nil _)
  · exact .ite (fun _ => reads_fetchBackground) fun _ => hpure .nil
  · exact .ite (fun _ => .update rfl fun _ h => h) fun _ => hpure rfl

theorem reads_step : Reads (Draws rendering)
    (step : EStateM BusError (Wired Ppu (Observed β)) Tick) (fun _ _ => True)
    (DotReads rendering) := by
  rw [step_stages]
  refine .bind_look fun tick => .bind_update (N := Draws rendering) (fun p h => ?_)
    (.bind_look fun fetches => .bind_look fun beam => .bind_quiet (M := fun _ => Draws rendering)
      ((reads_drawStages fetches beam).mono (fun _ h => h.1.1) (fun _ _ h => h) fun _ h => h)
      fun _ => .bind_update (N := fun _ => True) (fun _ _ => trivial) (.pure rfl fun _ h => h))
  rw [Draws, beginDot_mask]
  exact h.1

def dotUses (w : Wired Ppu β) : List BusUse :=
  (stateAfter step (⟨w.chip, ⟨w.bus, []⟩⟩ : Wired Ppu (Observed β))).bus.uses.reverse

/-- A dot reads, each part of the picture where it stands, and never writes. -/
theorem exists_dotReads (w : Wired Ppu β) :
    ∃ l, dotUses w = l.map .read ∧ DotReads w.chip.mask.rendering l := by
  have hends : Goes (fun v : Wired Ppu (Observed β) =>
      Draws w.chip.mask.rendering v.chip ∧ v.bus.uses = []) step fun v =>
        ∃ l, DotReads w.chip.mask.rendering l ∧ v.bus.uses = (l.map .read).reverse ++ [] :=
    (reads_step []).mono (fun _ h => h) (fun _ _ h => h.2) fun _ _ h => h
  obtain ⟨l, hl, huses⟩ := hends.stateAfter (s := ⟨w.chip, ⟨w.bus, []⟩⟩) ⟨rfl, rfl⟩
  refine ⟨l, ?_, hl⟩
  rw [dotUses, huses, List.append_nil, List.reverse_reverse]

end Ppu
end
end NesConsole
