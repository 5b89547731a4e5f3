import Mathlib.Logic.Function.Basic
import Mathlib.Logic.Function.Iterate
import NesConsole.FlatMemory
import NesConsole.Proofs.Outcomes

/-! Two runs over flat memories that are equal but for bit 3 of some cells. The accesses of a run
are marked where they hand over a byte of flags. As long as no other read meets a cell that holds
pushed flags, the second run goes beside the first, and the marks tell which cells may differ. -/
namespace NesConsole

def SameButBit3 (b b' : UInt8) : Prop := ∀ k, k ≠ 3 → hasBit b k = hasBit b' k

def Matches (flags : Bool) (b b' : UInt8) : Prop :=
  match flags with
  | true => SameButBit3 b b'
  | false => b = b'

theorem Matches.refl (flags : Bool) (b : UInt8) : Matches flags b b := by
  cases flags with
  | true => exact fun _ _ => rfl
  | false => exact rfl

/-- Flags may be taken for flags, other bytes for anything. -/
theorem Matches.of_discreet {held flags : Bool} {b b' : UInt8} (h : Matches held b b')
    (hd : flags = true ∨ held = false) : Matches flags b b' := by
  cases held with
  | true =>
    obtain rfl : flags = true := hd.resolve_right nofun
    exact h
  | false =>
    obtain rfl : b = b' := h
    exact .refl flags b

/-! ### Marks -/

/-- An access, and whether the byte that it hands over is one of flags. -/
structure Marked where
  access : Access
  flags : Bool
  deriving DecidableEq

namespace Marked

/-- The cells that hold pushed flags once an access has been made: a write puts flags into its
cell, or takes them from it. -/
def leaves (held : Nat → Bool) (m : Marked) : Nat → Bool :=
  match m.access with
  | .write address _ => Function.update held address.toNat m.flags
  | _ => held

def Discreet (held : Nat → Bool) (m : Marked) : Prop :=
  match m.access with
  | .read address _ => m.flags = true ∨ held address.toNat = false
  | _ => True

instance (held : Nat → Bool) (m : Marked) : Decidable (m.Discreet held) := by
  unfold Discreet
  split <;> infer_instance

end Marked

def later : Option Nat → Option Nat
  | some (n + 1) => some n
  | _ => none

/-- Accesses in turn. The one with `place` accesses before it hands over flags. -/
def marked : Option Nat → List Access → List Marked
  | _, [] => []
  | place, a :: l => ⟨a, place == some 0⟩ :: marked (later place) l

def heldAfter (held : Nat → Bool) (l : List Marked) : Nat → Bool := l.foldl Marked.leaves held

def Discreet (held : Nat → Bool) : List Marked → Prop
  | [] => True
  | m :: l => m.Discreet held ∧ Discreet (m.leaves held) l

instance Discreet.decidable (held : Nat → Bool) : (l : List Marked) → Decidable (Discreet held l)
  | [] => inferInstanceAs (Decidable True)
  | m :: l =>
    have := Discreet.decidable (m.leaves held) l
    inferInstanceAs (Decidable (m.Discreet held ∧ Discreet (m.leaves held) l))

theorem marked_append (place : Option Nat) (l l' : List Access) :
    marked place (l ++ l') = marked place l ++ marked (later^[l.length] place) l' := by
  induction l generalizing place with
  | nil => rfl
  | cons a l ih => exact congrArg _ (ih (later place))

theorem heldAfter_append (held : Nat → Bool) (l l' : List Marked) :
    heldAfter held (l ++ l') = heldAfter (heldAfter held l) l' := List.foldl_append

theorem discreet_append {held : Nat → Bool} {l l' : List Marked} :
    Discreet held (l ++ l') ↔ Discreet held l ∧ Discreet (heldAfter held l) l' := by
  induction l generalizing held with
  | nil => exact (iff_of_eq (true_and _)).symm
  | cons m l ih => exact (and_congr_right fun _ => ih).trans and_assoc.symm

/-! ### Memories -/

namespace FlatMemory
variable {n : Nat}

abbrev masked (n : Nat) (address : UInt16) : UInt16 := UInt16.ofNat (address.toNat % n)

theorem toNat_masked (address : UInt16) : (masked n address).toNat = address.toNat % n := by
  have hlt : address.toNat % n < 0x10000 :=
    Nat.lt_of_le_of_lt (Nat.mod_le _ _) address.toNat_lt
  rw [UInt16.toNat_ofNat']
  exact Nat.mod_eq_of_lt hlt

section
variable {κ : Type} {w : Wired κ (FlatMemory n)} {address : UInt16}

theorem read_hole (h : w.bus.inHole (masked n address) = true) : Wired.read address w =
    .error (.unmapped (masked n address))
      ⟨w.chip, w.bus.note (.refusedRead (masked n address))⟩ :=
  Wired.read_error (if_pos h)

theorem read_cell (h : w.bus.inHole (masked n address) = false) : Wired.read address w =
    .ok (w.bus.get (masked n address).toNat) ⟨w.chip, w.bus.note
      (.read (masked n address) (w.bus.get (masked n address).toNat))⟩ :=
  Wired.read_ok (if_neg (Bool.eq_false_iff.1 h))

theorem write_hole (data : UInt8) (h : w.bus.inHole (masked n address) = true) :
    Wired.write address data w = .error (.unmapped (masked n address))
      ⟨w.chip, w.bus.note (.refusedWrite (masked n address))⟩ :=
  Wired.write_error (if_pos h)

theorem write_cell (data : UInt8) (h : w.bus.inHole (masked n address) = false) :
    Wired.write address data w = .ok () ⟨w.chip, (w.bus.set (masked n address).toNat data).note
      (.write (masked n address) data)⟩ :=
  Wired.write_ok (if_neg (Bool.eq_false_iff.1 h))

end

theorem get_set_same {m : FlatMemory n} {address k : Nat} (data : UInt8)
    (h : k % n = address % n) :
    (m.set address data).get k = if address % n < n then data else 0 := by
  unfold get set
  rw [h]
  dsimp only
  rw [Vector.getElem?_setIfInBounds]
  simp only [if_true]
  split <;> rfl

theorem get_set_other {m : FlatMemory n} {address k : Nat} (data : UInt8)
    (h : k % n ≠ address % n) : (m.set address data).get k = m.get k := by
  unfold get set
  dsimp only
  rw [Vector.getElem?_setIfInBounds_ne (Ne.symm h)]

/-- Memories with the same holes, equal but for bit 3 of the cells that hold pushed flags. -/
structure Twins (held : Nat → Bool) (b b' : FlatMemory n) : Prop where
  holes : b.holes = b'.holes
  cells (k : Nat) : Matches (held (k % n)) (b.get k) (b'.get k)

namespace Twins
variable {held : Nat → Bool} {b b' : FlatMemory n} (h : b.Twins held b')
include h

theorem inHole (address : UInt16) : b.inHole address = b'.inHole address := by
  unfold FlatMemory.inHole
  rw [h.holes]

theorem note (a a' : Access) : (b.note a).Twins held (b'.note a') := ⟨h.holes, h.cells⟩

theorem set {flags : Bool} {data data' : UInt8} (address : UInt16)
    (hdata : Matches flags data data') :
    (b.set (masked n address).toNat data).Twins
      (Function.update held (masked n address).toNat flags)
      (b'.set (masked n address).toNat data') := by
  refine ⟨h.holes, fun k => ?_⟩
  rw [toNat_masked]
  by_cases hk : k % n = address.toNat % n
  · have hcell : k % n = address.toNat % n % n := hk.trans (Nat.mod_mod _ _).symm
    rw [hk, Function.update_self, get_set_same data hcell, get_set_same data' hcell]
    split
    · exact hdata
    · exact .refl _ _
  · have hcell : k % n ≠ address.toNat % n % n := by rwa [Nat.mod_mod]
    rw [Function.update_of_ne hk, get_set_other data hcell, get_set_other data' hcell]
    exact h.cells k

end Twins
end FlatMemory

def TwinStates {κ : Type} {n : Nat} (R : κ → κ → Prop) (held : Nat → Bool)
    (w v : Wired κ (FlatMemory n)) : Prop :=
  R w.chip v.chip ∧ w.bus.Twins held v.bus

/-! ### Runs -/

open FlatMemory

section
variable {ε κ α δ : Type} {n : Nat} {R : κ → κ → Prop} {A : α → α → Prop}

def Adds (x : EStateM ε (Wired κ (FlatMemory n)) α) (w : Wired κ (FlatMemory n))
    (l : List Access) : Prop :=
  (stateAfter x w).bus.history = l.reverse ++ w.bus.history

def TwinOutcomes (R : κ → κ → Prop) (A : α → α → Prop) (held : Nat → Bool) :
    EStateM.Result ε (Wired κ (FlatMemory n)) α →
    EStateM.Result ε (Wired κ (FlatMemory n)) α → Prop
  | .ok a w, .ok a' v => A a a' ∧ TwinStates R held w v
  | .error e w, .error e' v => e = e' ∧ TwinStates R held w v
  | _, _ => False

namespace TwinOutcomes
variable {held : Nat → Bool}

/-- Both end alike. -/
theorem ends {r r' : EStateM.Result ε (Wired κ (FlatMemory n)) α}
    (h : TwinOutcomes R A held r r') :
    (∃ a a' w v, r = .ok a w ∧ r' = .ok a' v ∧ A a a' ∧ TwinStates R held w v) ∨
      ∃ e w v, r = .error e w ∧ r' = .error e v ∧ TwinStates R held w v := by
  cases r <;> cases r'
  case ok.ok => exact .inl ⟨_, _, _, _, rfl, rfl, h⟩
  case error.error =>
    obtain ⟨rfl, hends⟩ := h
    exact .inr ⟨_, _, _, rfl, rfl, hends⟩
  all_goals exact h.elim

theorem stateAfter {x y : EStateM ε (Wired κ (FlatMemory n)) α} {w v : Wired κ (FlatMemory n)}
    (h : TwinOutcomes R A held (x w) (y v)) :
    TwinStates R held (stateAfter x w) (stateAfter y v) := by
  unfold NesConsole.stateAfter
  rcases h.ends with ⟨_, _, _, _, hx, hy, -, hends⟩ | ⟨_, _, _, hx, hy, hends⟩ <;>
    · rw [hx, hy]
      exact hends

end TwinOutcomes

/-- The history of `x` grows. Where its access at `place` alone takes pushed flags, `y` goes beside
it from twins. After success the place of the flags is `rest`. -/
structure Parallel (R : κ → κ → Prop) (A : α → α → Prop) (place rest : Option Nat)
    (x y : EStateM ε (Wired κ (FlatMemory n)) α) : Prop where
  adds (w : Wired κ (FlatMemory n)) : ∃ l, Adds x w l
  passes {w w' : Wired κ (FlatMemory n)} {a : α} {l : List Access} :
    x w = .ok a w' → Adds x w l → later^[l.length] place = rest
  twins {w v : Wired κ (FlatMemory n)} {held : Nat → Bool} {l : List Access} :
    TwinStates R held w v → Adds x w l → Discreet held (marked place l) →
      TwinOutcomes R A (heldAfter held (marked place l)) (x w) (y v)

namespace Adds
variable {x : EStateM ε (Wired κ (FlatMemory n)) α} {w w' : Wired κ (FlatMemory n)}
  {l l' : List Access}

theorem unique (h : Adds x w l) (h' : Adds x w l') : l = l' :=
  List.reverse_inj.1 (List.append_cancel_right (h.symm.trans h'))

/-- A program that leaves the history alone adds no access. -/
theorem eq_nil (h : Adds x w l) (hkept : (stateAfter x w).bus.history = w.bus.history) : l = [] :=
  h.unique hkept

theorem bind {f : α → EStateM ε (Wired κ (FlatMemory n)) δ} {a : α} (hx : x w = .ok a w')
    (h : Adds x w l) (h' : Adds (f a) w' l') : Adds (x >>= f) w (l ++ l') := by
  unfold Adds stateAfter at *
  rw [hx] at h
  rw [bind_ok hx, h', h, List.reverse_append, List.append_assoc]

theorem of_bind_error {f : α → EStateM ε (Wired κ (FlatMemory n)) δ} {e : ε}
    (hx : x w = .error e w') (h : Adds (x >>= f) w l) : Adds x w l := by
  unfold Adds stateAfter at *
  rw [bind_error hx] at h
  rwa [hx]

end Adds

namespace Parallel
variable {place mid rest : Option Nat} {B : δ → δ → Prop}

/-- From one pair of twins, where what follows the first part depends on what it meets there. -/
theorem bind_at {x y : EStateM ε (Wired κ (FlatMemory n)) α}
    {f g : α → EStateM ε (Wired κ (FlatMemory n)) δ} {w v : Wired κ (FlatMemory n)}
    {held : Nat → Bool} {l : List Access} (hx : Parallel R A place mid x y) (hA : ∀ a, A a a)
    (hf : ∀ a w', x w = .ok a w' → ∀ a', A a a' → Parallel R B mid rest (f a) (g a'))
    (hw : TwinStates R held w v) (hl : Adds (x >>= f) w l) (hd : Discreet held (marked place l)) :
    TwinOutcomes R B (heldAfter held (marked place l)) ((x >>= f) w) ((y >>= g) v) := by
  obtain ⟨l₁, h₁⟩ := hx.adds w
  cases hr : x w with
  | error e w' =>
    -- The history ends at the refusal, so the marks are those of the first part.
    obtain rfl := h₁.unique (hl.of_bind_error hr)
    have hfirst := hx.twins hw h₁ hd
    rw [hr] at hfirst
    cases hr' : y v <;> rw [hr'] at hfirst
    case ok => exact hfirst.elim
    case error =>
      rw [bind_error hr, bind_error hr']
      exact hfirst
  | ok a w' =>
    obtain ⟨l₂, h₂⟩ := (hf a w' hr a (hA a)).adds w'
    obtain rfl := (h₁.bind hr h₂).unique hl
    rw [marked_append, hx.passes hr h₁] at hd ⊢
    rw [discreet_append] at hd
    have hfirst := hx.twins hw h₁ hd.1
    rw [hr] at hfirst
    cases hr' : y v <;> rw [hr'] at hfirst
    case error => exact hfirst.elim
    case ok a' v' =>
      rw [bind_ok hr, bind_ok hr', heldAfter_append]
      exact (hf a w' hr a' hfirst.1).twins hfirst.2 h₂ hd.2

/-- Programs that go on alike from related answers. -/
theorem bind_related {x y : EStateM ε (Wired κ (FlatMemory n)) α}
    {f g : α → EStateM ε (Wired κ (FlatMemory n)) δ} (hx : Parallel R A place mid x y)
    (hA : ∀ a, A a a) (hf : ∀ a a', A a a' → Parallel R B mid rest (f a) (g a')) :
    Parallel R B place rest (x >>= f) (y >>= g) where
  adds w := by
    obtain ⟨l₁, h₁⟩ := hx.adds w
    cases hr : x w with
    | error e w' =>
      refine ⟨l₁, ?_⟩
      unfold Adds stateAfter at *
      rw [hr] at h₁
      rwa [bind_error hr]
    | ok a w' =>
      obtain ⟨l₂, h₂⟩ := (hf a a (hA a)).adds w'
      exact ⟨l₁ ++ l₂, h₁.bind hr h₂⟩
  passes {w w' b l} hb hl := by
    obtain ⟨a, w₁, hr, hrest⟩ := of_bind_ok hb
    obtain ⟨l₁, h₁⟩ := hx.adds w
    obtain ⟨l₂, h₂⟩ := (hf a a (hA a)).adds w₁
    obtain rfl := (h₁.bind hr h₂).unique hl
    rw [List.length_append, Nat.add_comm, Function.iterate_add_apply, hx.passes hr h₁]
    exact (hf a a (hA a)).passes hrest h₂
  twins := bind_at hx hA fun a _ _ a' h => hf a a' h

/-- Programs that go on alike from equal answers. -/
theorem bind {x y : EStateM ε (Wired κ (FlatMemory n)) α}
    {f g : α → EStateM ε (Wired κ (FlatMemory n)) δ} (hx : Parallel R Eq place mid x y)
    (hf : ∀ a, Parallel R B mid rest (f a) (g a)) : Parallel R B place rest (x >>= f) (y >>= g) :=
  hx.bind_related (fun _ => rfl) fun a _ h => h ▸ hf a

theorem mono {A' : α → α → Prop} {x y : EStateM ε (Wired κ (FlatMemory n)) α}
    (h : Parallel R A place rest x y) (hA : ∀ a a', A a a' → A' a a') :
    Parallel R A' place rest x y where
  adds := h.adds
  passes := h.passes
  twins {w v held l} hw hl hd := by
    rcases (h.twins hw hl hd).ends with ⟨_, _, _, _, hx, hy, ha, hends⟩ | ⟨_, _, _, hx, hy, hends⟩
    · rw [hx, hy]
      exact ⟨hA _ _ ha, hends⟩
    · rw [hx, hy]
      exact ⟨rfl, hends⟩

/-- Programs without an access. -/
theorem silent {x y : EStateM ε (Wired κ (FlatMemory n)) α}
    (hkept : ∀ w, (stateAfter x w).bus.history = w.bus.history)
    (h : ∀ held w v, TwinStates R held w v → TwinOutcomes R A held (x w) (y v)) :
    Parallel R A place place x y where
  adds w := ⟨[], hkept w⟩
  passes {w _ _ _} _ hl := by rw [hl.eq_nil (hkept w)]; rfl
  twins {w v held _} hw hl _ := by
    rw [hl.eq_nil (hkept w)]
    exact h held w v hw

theorem pure {a a' : α} (h : A a a') : Parallel (ε := ε) (n := n) R A place place
    (Pure.pure a) (Pure.pure a') :=
  silent (fun _ => rfl) fun _ _ _ hw => ⟨h, hw⟩

theorem throw (e : ε) : Parallel (n := n) R A place place
    (MonadExcept.throw e : EStateM ε _ α) (MonadExcept.throw e) :=
  silent (fun _ => rfl) fun _ _ _ hw => ⟨rfl, hw⟩

theorem look {g g' : κ → α} (h : ∀ c c', R c c' → A (g c) (g' c')) :
    Parallel (ε := ε) (n := n) R A place place (Wired.look g) (Wired.look g') :=
  silent (fun _ => rfl) fun _ w v hw => ⟨h w.chip v.chip hw.1, hw⟩

theorem update {g g' : κ → κ} (h : ∀ c c', R c c' → R (g c) (g' c')) :
    Parallel (ε := ε) (n := n) R Eq place place (Wired.update g) (Wired.update g') :=
  silent (fun _ => rfl) fun _ w v hw => ⟨rfl, h w.chip v.chip hw.1, hw.2⟩

/-- Programs of one access. -/
theorem single {x y : EStateM ε (Wired κ (FlatMemory n)) α}
    (hone : ∀ w, ∃ a, Adds x w [a])
    (h : ∀ held w v a, TwinStates R held w v → Adds x w [a] →
      Marked.Discreet held ⟨a, place == some 0⟩ →
      TwinOutcomes R A (Marked.leaves held ⟨a, place == some 0⟩) (x w) (y v)) :
    Parallel R A place (later place) x y where
  adds w := (hone w).imp' (fun a => [a]) fun _ ha => ha
  passes {w _ _ _} _ hl := by
    obtain ⟨a, ha⟩ := hone w
    rw [hl.unique ha]
    rfl
  twins {w v held l} hw hl hd := by
    obtain ⟨a, ha⟩ := hone w
    obtain rfl := hl.unique ha
    exact h held w v a hw ha hd.1

/-- A byte that is read matches as what it is read for. -/
theorem read (address : UInt16) : Parallel (κ := κ) (n := n) R
    (Matches (place == some 0)) place (later place) (Wired.read address) (Wired.read address) := by
  refine single (fun w => ?_) fun held w v a hw ha hd => ?_
  · cases hhole : w.bus.inHole (masked n address) with
    | true => exact ⟨.refusedRead _, by rw [Adds, stateAfter, read_hole hhole]; rfl⟩
    | false => exact ⟨.read _ _, by rw [Adds, stateAfter, read_cell hhole]; rfl⟩
  · obtain ⟨hchip, hbus⟩ := hw
    have hsame := hbus.inHole (masked n address)
    rw [Adds, stateAfter] at ha
    cases hhole : w.bus.inHole (masked n address) with
    | true =>
      rw [read_hole hhole] at ha ⊢
      rw [hhole] at hsame
      rw [read_hole hsame.symm]
      obtain rfl : .refusedRead (masked n address) = a := (List.cons.inj ha).1
      exact ⟨rfl, hchip, hbus.note _ _⟩
    | false =>
      rw [read_cell hhole] at ha ⊢
      rw [hhole] at hsame
      rw [read_cell hsame.symm]
      obtain rfl : .read (masked n address) _ = a := (List.cons.inj ha).1
      have hcell := hbus.cells (masked n address).toNat
      rw [toNat_masked, Nat.mod_mod, ← toNat_masked] at hcell
      exact ⟨hcell.of_discreet hd, hchip, hbus.note _ _⟩

/-- A byte that is no flags is read as it is. -/
theorem read_plain (address : UInt16) (place : Option Nat) : Parallel (κ := κ) (n := n) R Eq
    (place.map (· + 1)) place (Wired.read address) (Wired.read address) := by
  cases place with
  | none => exact (read address).mono fun _ _ h => h
  | some k => exact (read address).mono fun _ _ h => h

theorem write {data data' : UInt8} (address : UInt16) (h : Matches (place == some 0) data data') :
    Parallel (κ := κ) (n := n) R Eq place (later place) (Wired.write address data)
      (Wired.write address data') := by
  refine single (fun w => ?_) fun held w v a hw ha hd => ?_
  · cases hhole : w.bus.inHole (masked n address) with
    | true => exact ⟨.refusedWrite _, by rw [Adds, stateAfter, write_hole _ hhole]; rfl⟩
    | false => exact ⟨.write _ _, by rw [Adds, stateAfter, write_cell _ hhole]; rfl⟩
  · obtain ⟨hchip, hbus⟩ := hw
    have hsame := hbus.inHole (masked n address)
    rw [Adds, stateAfter] at ha
    cases hhole : w.bus.inHole (masked n address) with
    | true =>
      rw [write_hole _ hhole] at ha ⊢
      rw [hhole] at hsame
      rw [write_hole _ hsame.symm]
      obtain rfl : .refusedWrite (masked n address) = a := (List.cons.inj ha).1
      exact ⟨rfl, hchip, hbus.note _ _⟩
    | false =>
      rw [write_cell _ hhole] at ha ⊢
      rw [hhole] at hsame
      rw [write_cell _ hsame.symm]
      obtain rfl : .write (masked n address) data = a := (List.cons.inj ha).1
      exact ⟨rfl, hchip, (hbus.set address h).note _ _⟩

end Parallel
end
end NesConsole
