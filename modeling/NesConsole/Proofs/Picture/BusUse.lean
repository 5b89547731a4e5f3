import NesConsole.Proofs.BusAgreement
import NesConsole.Proofs.Picture.Timing

/-! What a program asks of its bus. A bus that keeps a list of what it is asked shows the accesses
of a program in turn, also those that it refuses, and erasing the list gives the program on the bus
itself. For programs that only read there is a judgement of the addresses that they read. -/
namespace NesConsole

inductive BusUse where
  | read (address : UInt16)
  | write (address : UInt16) (data : UInt8)
  deriving DecidableEq, Repr

structure Observed (β : Type) where
  bus : β
  uses : List BusUse := []

namespace Observed
variable {α β : Type}

def asking (use : BusUse) (act : EStateM BusError β α) : EStateM BusError (Observed β) α :=
  fun ⟨bus, uses⟩ =>
    match act bus with
    | .ok a bus => .ok a ⟨bus, use :: uses⟩
    | .error e bus => .error e ⟨bus, use :: uses⟩

instance [Bus β] : Bus (Observed β) where
  read address := asking (.read address) (Bus.read address)
  write address data := asking (.write address data) (Bus.write address data)

def Erases (o : Observed β) (b : β) : Prop := o.bus = b

theorem agree_asking (use : BusUse) (act : EStateM BusError β α) :
    Agree Erases (asking use act) act := by
  rintro ⟨b, uses⟩ _ rfl
  dsimp only [asking]
  cases act b <;> exact ⟨rfl, rfl⟩

instance [Bus β] : BusAgreement (Erases (β := β)) where
  read _ := agree_asking _ _
  write _ _ := agree_asking _ _

end Observed

/-! ### Programs that read -/

section
variable {ε κ κ' α δ β : Type} {P N : κ → Prop} {Q : α → κ → Prop} {S T : List UInt16 → Prop}

def Followed (S T : List UInt16 → Prop) (l : List UInt16) : Prop :=
  ∃ l₁ l₂, l = l₁ ++ l₂ ∧ S l₁ ∧ T l₂

/-- From a chip in `P` the program asks for reads alone, those of a list in `S` in turn. Success
leaves a chip in `Q`. -/
def Reads (P : κ → Prop) (x : EStateM ε (Wired κ (Observed β)) α) (Q : α → κ → Prop)
    (S : List UInt16 → Prop) : Prop :=
  ∀ u, Leads (fun w => P w.chip ∧ w.bus.uses = u) x
    (fun a w => Q a w.chip ∧ ∃ l, S l ∧ w.bus.uses = (l.map .read).reverse ++ u)
    fun _ w => ∃ l, S l ∧ w.bus.uses = (l.map .read).reverse ++ u

namespace Reads

theorem pure {a : α} (hS : S []) (h : ∀ c, P c → Q a c) :
    Reads P (Pure.pure a : EStateM ε (Wired κ (Observed β)) α) Q S :=
  fun _ w hw => ⟨h w.chip hw.1, [], hS, hw.2⟩

theorem throw (e : ε) (hS : S []) :
    Reads P (MonadExcept.throw e : EStateM ε (Wired κ (Observed β)) α) Q S :=
  fun _ _ hw => ⟨[], hS, hw.2⟩

theorem look {g : κ → α} (hS : S []) (h : ∀ c, P c → Q (g c) c) :
    Reads P (Wired.look g : EStateM ε (Wired κ (Observed β)) α) Q S :=
  fun _ w hw => ⟨h w.chip hw.1, [], hS, hw.2⟩

theorem update {g : κ → κ} {Q : Unit → κ → Prop} (hS : S []) (h : ∀ c, P c → Q () (g c)) :
    Reads P (Wired.update g : EStateM ε (Wired κ (Observed β)) Unit) Q S :=
  fun _ w hw => ⟨h w.chip hw.1, [], hS, hw.2⟩

theorem mono {x : EStateM ε (Wired κ (Observed β)) α} {Q' : α → κ → Prop} (h : Reads N x Q' S)
    (hP : ∀ c, P c → N c) (hQ : ∀ a c, Q' a c → Q a c) (hS : ∀ l, S l → T l) :
    Reads P x Q T := fun u =>
  (h u).mono (fun _ hw => ⟨hP _ hw.1, hw.2⟩)
    (fun _ _ ⟨hq, l, hl, hu⟩ => ⟨hQ _ _ hq, l, hS l hl, hu⟩) fun _ _ ⟨l, hl, hu⟩ => ⟨l, hS l hl, hu⟩

/-- The second list comes after the first, which stands alone where the first part is refused. -/
theorem bind {x : EStateM ε (Wired κ (Observed β)) δ} {f : δ → EStateM ε (Wired κ (Observed β)) α}
    {M : δ → κ → Prop} {S' : δ → List UInt16 → Prop} (hx : Reads P x M S)
    (hf : ∀ d, Reads (M d) (f d) Q (S' d)) (hfirst : ∀ l, S l → T l)
    (hboth : ∀ d l l', S l → S' d l' → T (l ++ l')) : Reads P (x >>= f) Q T := by
  intro u
  have hfirst' : Leads (fun w => P w.chip ∧ w.bus.uses = u) x
      (fun d w => M d w.chip ∧ ∃ l, S l ∧ w.bus.uses = (l.map .read).reverse ++ u)
      fun _ w => ∃ l, T l ∧ w.bus.uses = (l.map .read).reverse ++ u :=
    (hx u).mono (fun _ hw => hw) (fun _ _ hw => hw) fun _ _ ⟨l, hl, hu⟩ => ⟨l, hfirst l hl, hu⟩
  refine hfirst'.bind fun d w ⟨hm, l, hl, hu⟩ => ?_
  have hjoined {v : Wired κ (Observed β)} {l' : List UInt16} (hl' : S' d l')
      (hv : v.bus.uses = (l'.map .read).reverse ++ w.bus.uses) :
      ∃ l, T l ∧ v.bus.uses = (l.map .read).reverse ++ u := by
    refine ⟨l ++ l', hboth d l l' hl hl', ?_⟩
    rw [hv, hu, List.map_append, List.reverse_append, List.append_assoc]
  exact (hf d w.bus.uses).mono (fun _ hw => hw)
    (fun _ _ ⟨hq, _, hl', hv⟩ => ⟨hq, hjoined hl' hv⟩) (fun _ _ ⟨_, hl', hv⟩ => hjoined hl' hv)
    w ⟨hm, rfl⟩

theorem bind_look {g : κ → δ} {f : δ → EStateM ε (Wired κ (Observed β)) α}
    (hf : ∀ d, Reads (fun c => P c ∧ d = g c) (f d) Q S) : Reads P (Wired.look g >>= f) Q S :=
  fun u w hw => hf (g w.chip) u w ⟨⟨hw.1, rfl⟩, hw.2⟩

theorem bind_update {g : κ → κ} {f : Unit → EStateM ε (Wired κ (Observed β)) α}
    (hg : ∀ c, P c → N (g c)) (hf : Reads N (f ()) Q S) : Reads P (Wired.update g >>= f) Q S :=
  fun u w hw => hf u ⟨g w.chip, w.bus⟩ ⟨hg _ hw.1, hw.2⟩

theorem ite {p : Prop} [Decidable p] {x y : EStateM ε (Wired κ (Observed β)) α}
    (hx : p → Reads P x Q S) (hy : ¬p → Reads P y Q S) : Reads P (if p then x else y) Q S := by
  split
  · exact hx ‹_›
  · exact hy ‹_›

/-- The chip may be taken to be a fixed one. -/
theorem each {x : EStateM ε (Wired κ (Observed β)) α}
    (h : ∀ c, P c → Reads (fun c' => c' = c) x Q S) : Reads P x Q S :=
  fun u w hw => h w.chip hw.1 u w ⟨rfl, hw.2⟩

theorem look_at {c : κ} {g : κ → δ} {f : δ → EStateM ε (Wired κ (Observed β)) α}
    (hf : Reads (fun c' => c' = c) (f (g c)) Q S) :
    Reads (fun c' => c' = c) (Wired.look g >>= f) Q S := by
  rintro u w ⟨rfl, hu⟩
  exact hf u w ⟨rfl, hu⟩

theorem fact {p : Prop} {x : EStateM ε (Wired κ (Observed β)) α} (h : p → Reads P x Q S) :
    Reads (fun c => P c ∧ p) x Q S :=
  fun u w hw => h hw.1.2 u w ⟨hw.1.1, hw.2⟩

/-- What happens in a part of the chip is no matter to the rest. -/
theorem onPart {get : κ → κ'} {put : κ' → κ → κ} {x : EStateM ε (Wired κ' (Observed β)) α}
    (h : Reads (fun _ => True) x (fun _ _ => True) S) (hput : ∀ k c, P c → N (put k c)) :
    Reads P (Wired.onPart get put x) (fun _ => N) S := by
  intro u w hw
  have hr := h u ⟨get w.chip, w.bus⟩ ⟨trivial, hw.2⟩
  dsimp only [Wired.onPart]
  cases hx : x ⟨get w.chip, w.bus⟩ <;> rw [hx] at hr
  case ok => exact ⟨hput _ _ hw.1, hr.2⟩
  case error => exact hr

/-- What reads nothing adds nothing, behind a program or before it. -/
theorem bind_quiet {x : EStateM ε (Wired κ (Observed β)) δ}
    {f : δ → EStateM ε (Wired κ (Observed β)) α} {M : δ → κ → Prop} (hx : Reads P x M S)
    (hf : ∀ d, Reads (M d) (f d) Q (· = [])) : Reads P (x >>= f) Q S := by
  refine bind hx hf (fun _ hl => hl) ?_
  rintro d l _ hl rfl
  rwa [List.append_nil]

theorem quiet_bind {x : EStateM ε (Wired κ (Observed β)) δ}
    {f : δ → EStateM ε (Wired κ (Observed β)) α} {M : δ → κ → Prop} (hx : Reads P x M (· = []))
    (hf : ∀ d, Reads (M d) (f d) Q S) (hS : S []) : Reads P (x >>= f) Q S := by
  refine bind hx hf ?_ ?_
  · rintro _ rfl
    exact hS
  · rintro d _ l rfl hl
    exact hl

theorem bind_then {x : EStateM ε (Wired κ (Observed β)) δ}
    {f : δ → EStateM ε (Wired κ (Observed β)) α} {M : δ → κ → Prop} (hx : Reads P x M S)
    (hf : ∀ d, Reads (M d) (f d) Q T) (hT : T []) : Reads P (x >>= f) Q (Followed S T) :=
  bind hx hf (fun l hl => ⟨l, [], (List.append_nil l).symm, hl, hT⟩)
    fun _ l l' hl hl' => ⟨l, l', rfl, hl, hl'⟩

section
variable {A : UInt16 → Prop}

/-- Where all addresses are in a set, so are those of both parts. -/
theorem bind_all {x : EStateM ε (Wired κ (Observed β)) δ}
    {f : δ → EStateM ε (Wired κ (Observed β)) α} {M : δ → κ → Prop}
    (hx : Reads P x M fun l => ∀ a ∈ l, A a) (hf : ∀ d, Reads (M d) (f d) Q fun l => ∀ a ∈ l, A a) :
    Reads P (x >>= f) Q fun l => ∀ a ∈ l, A a :=
  bind hx hf (fun _ hl => hl) fun _ _ _ hl hl' => List.forall_mem_append.2 ⟨hl, hl'⟩

theorem forM_all {ι : Type} {l : List ι} {f : ι → EStateM ε (Wired κ (Observed β)) PUnit}
    (h : ∀ i ∈ l, Reads P (f i) (fun _ => P) fun l => ∀ a ∈ l, A a) :
    Reads P (l.forM f) (fun _ => P) fun l => ∀ a ∈ l, A a := by
  induction l with
  | nil => exact .pure (List.forall_mem_nil A) fun _ hc => hc
  | cons i l ih =>
    exact .bind_all (h i List.mem_cons_self) fun _ => ih fun j hj => h j (List.mem_cons_of_mem i hj)

end

variable [Bus β]

theorem read (address : UInt16) (hS : S [address]) : Reads P
    (Wired.read address : EStateM BusError (Wired κ (Observed β)) UInt8) (fun _ => P) S := by
  rintro _ ⟨c, b, uses⟩ ⟨hc, rfl⟩
  dsimp only [Wired.read, Wired.onBus, Bus.read, Observed.asking]
  cases (Bus.read address : EStateM BusError β UInt8) b with
  | ok => exact ⟨hc, [address], hS, rfl⟩
  | error => exact ⟨[address], hS, rfl⟩

/-- A read, and then the rest of a list, as far as the bus answers. -/
theorem bind_read {address : UInt16} {f : UInt8 → EStateM BusError (Wired κ (Observed β)) α}
    (rest : UInt8 → List UInt16) (hf : ∀ byte, Reads P (f byte) Q (· <+: rest byte))
    (hT : ∀ byte l, l <+: address :: rest byte → T l) :
    Reads P (Wired.read address >>= f) Q T := by
  refine bind (S := (· = [address])) (read address rfl) hf ?_ ?_
  · rintro _ rfl
    exact hT 0 _ (List.prefix_append [address] _)
  · rintro byte _ l rfl hl
    exact hT byte _ ((List.prefix_append_right_inj [address]).2 hl)

end Reads
end

/-! ### A dot is the same on buses that agree -/

namespace Agree
variable {ε σ τ α ι : Type} {R : σ → τ → Prop}

theorem ite {p : Prop} [Decidable p] {x y : EStateM ε σ α} {x' y' : EStateM ε τ α}
    (hx : Agree R x x') (hy : Agree R y y') :
    Agree R (if p then x else y) (if p then x' else y') := by
  split
  · exact hx
  · exact hy

theorem forM (l : List ι) {f : ι → EStateM ε σ PUnit} {g : ι → EStateM ε τ PUnit}
    (h : ∀ i, Agree R (f i) (g i)) : Agree R (l.forM f) (l.forM g) := by
  induction l with
  | nil => exact .pure _
  | cons i l ih => exact .bind (h i) fun _ => ih

end Agree

section
variable {β γ : Type} [Bus β] [Bus γ] {R : β → γ → Prop} [BusAgreement R]

theorem SpriteLine.agree_draw (oam : ObjectMemory) (scanline height : Nat) (table : UInt16)
    (i : Fin 64) :
    Agree (SameChip R) (draw oam scanline height table i) (draw oam scanline height table i) := by
  have hpattern (address : Nat) : Agree (SameChip R) (readPattern address) (readPattern address) :=
    .ite (.read _) (.throw _)
  refine .bind (.update _) fun _ => ?_
  refine .bind (hpattern _) fun low => ?_
  exact .bind (hpattern _) fun high => .update _

theorem SpriteLine.agree_evaluate (oam : ObjectMemory) (scanline height : Nat) (table : UInt16) :
    Agree (SameChip R) (evaluate oam scanline height table)
      (evaluate oam scanline height table) := by
  have hdraws : Agree (SameChip R) _ _ :=
    .forM ((covering oam scanline height).take 8) (agree_draw oam scanline height table)
  have hrest := hdraws.bind fun _ => .pure (decide (8 < (covering oam scanline height).length))
  exact .ite (.bind (.update _) fun _ => hrest)
    (.bind (.throw _) fun _ => .bind (.update _) fun _ => hrest)

namespace Ppu

theorem agree_fetchTile : Agree (SameChip R) fetchTile fetchTile := by
  refine .bind (.look _) fun v => ?_
  refine .bind (.read v.tileAddress) fun name => ?_
  refine .bind (.read v.attributeAddress) fun palettes => ?_
  refine .bind (.look _) fun table => ?_
  refine .bind (.read _) fun low => ?_
  exact .bind (.read _) fun high => .pure _

theorem agree_fetchBackground : Agree (SameChip R) fetchBackground fetchBackground := by
  refine .bind (.look _) fun beam => .ite ?next (.ite ?rows (.ite ?first ?nothing))
  case next | first => exact .bind agree_fetchTile fun tile => .update _
  case rows => exact .update _
  case nothing => exact .pure _

theorem agree_prepareSprites : Agree (SameChip R) prepareSprites prepareSprites := by
  refine .bind (.look _) fun rendering => .ite ?evaluated ?empty
  case evaluated =>
    refine .bind (.look _) fun p => ?_
    refine .bind (.onPart (SpriteLine.agree_evaluate _ _ _ _)) fun overflow => ?_
    exact .ite (.update _) (.pure _)
  case empty => exact .update _

omit [Bus β] [Bus γ] [BusAgreement R] in
theorem agree_chooseCell (x : Nat) : Agree (SameChip R) (chooseCell x) (chooseCell x) := by
  refine .bind (.look _) fun rendering => .ite ?composed (.look _)
  refine .bind (.look _) fun hit => .ite ?_ (.look _)
  exact .bind (.update _) fun _ => .look _

theorem agree_renderPixel : Agree (SameChip R) renderPixel renderPixel := by
  refine .bind (.look _) fun beam => ?_
  cases beam.pixel? with
  | none => exact .pure _
  | some i => exact .bind (agree_chooseCell _) fun _ => .bind (.read _) fun _ => .update _

/-- A dot depends on the bus through its accesses alone. -/
theorem agree_dot : Agree (SameChip R) step step := by
  rw [step_stages, step_stages]
  refine .bind (.look _) fun tick => .bind (.update _) fun _ => ?_
  refine .bind (.look _) fun rendering => .bind (.look _) fun beam => ?_
  refine .bind ?stages fun _ => .bind (.update _) fun _ => .pure _
  refine .bind (.ite agree_prepareSprites (.pure _)) fun _ => ?_
  refine .bind (.ite agree_fetchBackground (.pure _)) fun _ => ?_
  exact .bind agree_renderPixel fun _ => .ite (.update _) (.pure _)

end Ppu
end
end NesConsole
