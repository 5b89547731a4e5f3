import NesConsole.Proofs.Processor.Parts
import NesConsole.Proofs.Processor.TwinRuns

/-! What instructions and interrupt entries make of the decimal flag. From registers that it alone
tells apart they do the same, but for bit 3 of the flags that they push, and they leave registers
that it alone may tell apart. -/
namespace NesConsole

/-! ### Registers -/

namespace Registers

def SameButDecimal (r r' : Registers) : Prop := r.withDecimal false = r'.withDecimal false

namespace SameButDecimal
variable {r r' : Registers}

theorem refl (r : Registers) : SameButDecimal r r := rfl

theorem exists_eq (h : SameButDecimal r r') : ∃ d, r' = r.withDecimal d := by
  refine ⟨r'.p.decimal, ?_⟩
  have hback := congrArg (withDecimal r'.p.decimal) h
  exact hback.symm

end SameButDecimal
end Registers

namespace Status

/-- A byte ends with bit 7. -/
theorem hasBit_of_past (b : UInt8) (k : Nat) : hasBit b (k + 8) = false :=
  Nat.testBit_lt_two_pow
    (Nat.lt_of_lt_of_le b.toNat_lt (Nat.pow_le_pow_right (by decide) (Nat.le_add_left 8 k)))

theorem sameButBit3_toByte (s : Status) (d : Bool) :
    SameButBit3 s.toByte { s with decimal := d }.toByte := by
  have hflag (f : Status → Bool) (hf : f s = f { s with decimal := d }) :
      f (ofByte s.toByte) = f (ofByte { s with decimal := d }.toByte) := by
    rw [ofByte_toByte, ofByte_toByte, hf]
  intro k hk
  match k with
  | 0 => exact hflag carry rfl
  | 1 => exact hflag zero rfl
  | 2 => exact hflag interruptDisable rfl
  | 3 => exact absurd rfl hk
  | 4 => exact hflag brk rfl
  | 5 => exact hflag unused rfl
  | 6 => exact hflag overflow rfl
  | 7 => exact hflag negative rfl
  | k + 8 => rw [hasBit_of_past, hasBit_of_past]

theorem pulled_of_sameButBit3 {b b' : UInt8} (h : SameButBit3 b b') :
    { pulled b with decimal := false } = { pulled b' with decimal := false } := by
  simp only [pulled, ofByte, h 0 (by decide), h 1 (by decide), h 2 (by decide), h 6 (by decide),
    h 7 (by decide)]

end Status

/-! ### Instructions -/

/-- From registers that the decimal flag alone tells apart a program does the same. -/
abbrev Blind {α : Type} {n : Nat} (place rest : Option Nat) (x : Execution (FlatMemory n) α) :
    Prop :=
  Parallel Registers.SameButDecimal Eq place rest x x

namespace Blind
open Registers (SameButDecimal withDecimal)
variable {α : Type} {n : Nat} {place : Option Nat}

theorem look {g : Registers → α} (h : Registers.Hides g) :
    Blind (n := n) place place (Wired.look g) := by
  refine Parallel.look fun r r' hr => ?_
  obtain ⟨d, rfl⟩ := hr.exists_eq
  exact h d r

theorem update {g : Registers → Registers}
    (h : ∀ d r, (g r).withDecimal false = (g (r.withDecimal d)).withDecimal false) :
    Blind (n := n) place place (Wired.update g) := by
  refine Parallel.update fun r r' hr => ?_
  obtain ⟨d, rfl⟩ := hr.exists_eq
  exact h d r

theorem pushByte {byte byte' : UInt8} (h : SameButBit3 byte byte') :
    Parallel (n := n) SameButDecimal Eq (some 0) none (push byte) (push byte') := by
  have hwrite (sp : UInt8) : Parallel (n := n) SameButDecimal Eq (some 0) none
      (Wired.write (stackAddress sp) byte) (Wired.write (stackAddress sp) byte') :=
    Parallel.write _ h
  refine Parallel.bind (look fun _ _ => rfl) fun sp => ?_
  exact (hwrite sp).bind fun _ => update fun _ _ => rfl

theorem pullByte : Parallel (n := n) SameButDecimal (Matches (place == some 0)) place
    (later place) pull pull := by
  refine Parallel.bind (update fun _ _ => rfl) fun _ => ?_
  exact Parallel.bind (look fun _ _ => rfl) fun sp => Parallel.read (stackAddress sp)

/-- Registers that the decimal flag alone tells apart show flags that bit 3 alone tells apart. -/
theorem lookFlags {flags : Registers → UInt8}
    (h : ∀ d r, SameButBit3 (flags r) (flags (r.withDecimal d))) :
    Parallel (ε := BusError) (n := n) SameButDecimal SameButBit3 place place
      (Wired.look flags) (Wired.look flags) := by
  refine Parallel.look fun r r' hr => ?_
  obtain ⟨d, rfl⟩ := hr.exists_eq
  exact h d r

theorem pushedBySoftware (d : Bool) (r : Registers) :
    SameButBit3 r.p.pushedBySoftware (r.withDecimal d).p.pushedBySoftware :=
  Status.sameButBit3_toByte { r.p with brk := true, unused := true } d

theorem pushedByInterrupt (d : Bool) (r : Registers) :
    SameButBit3 r.p.pushedByInterrupt (r.withDecimal d).p.pushedByInterrupt :=
  Status.sameButBit3_toByte { r.p with brk := false, unused := true } d

/-- Flags that are pulled back differ in the decimal flag alone. -/
theorem restore {b b' : UInt8} (h : SameButBit3 b b') :
    Parallel (ε := BusError) (n := n) SameButDecimal Eq place place
      (Wired.update fun r => { r with p := .pulled b })
      (Wired.update fun r => { r with p := .pulled b' }) := by
  refine Parallel.update fun r r' hr => ?_
  obtain ⟨d, rfl⟩ := hr.exists_eq
  exact congrArg (fun p => { r with p := p }) (Status.pulled_of_sameButBit3 h)

/-- What is built of parts that do not show the decimal flag does not show it. -/
theorem built {S : UInt16 → Prop} {N : Nat} {s t : Stage} {x : Program α}
    (h : Built S N s t x) : Blind (n := n) s.place t.place (x (FlatMemory n)) := by
  induction h with
  | pure a => exact Parallel.pure rfl
  | bind _ _ ihx ihf => exact ihx.bind ihf
  | close hplace _ ih => rwa [hplace] at ih
  | look hg => exact look hg
  | rest hg _ | take _ hg _ => exact update hg.decimal
  | change hplace hg =>
    rw [hplace]
    exact update hg.decimal
  | @read _ p address => exact Parallel.read_plain address p
  | @write _ p address data _ =>
    cases p with
    | none | some => exact Parallel.write address rfl
  | pushFlags hflags _ =>
    rcases hflags with rfl | rfl
    · exact (lookFlags pushedBySoftware).bind_related (fun _ _ _ => rfl) fun _ _ => pushByte
    · exact (lookFlags pushedByInterrupt).bind_related (fun _ _ _ => rfl) fun _ _ => pushByte
  | pullFlags => exact Parallel.bind_related pullByte (.refl _) fun _ _ => restore

theorem enterInterrupt (vector : UInt16) :
    Blind (n := n) (some 2) none (enterInterrupt vector) :=
  built (.enterInterrupt (S := fun _ => True) (N := 0) (n := 0) (fun _ => trivial) vector)

/-- Operations that push or pull flags have no operand to fetch. -/
theorem instruction {i : Instruction} (h : i.operation.flagsPlace = none ∨ i.mode = .implied) :
    Blind (n := n) i.operation.flagsPlace none i.run := by
  have hplace : placeBefore i.mode.reads i.operation.flagsPlace = i.operation.flagsPlace := by
    rcases h with h | h <;> rw [h]
    · exact placeBefore_none _
    · rfl
  have hrun := built (n := n) (.instruction i)
  rwa [Stage.place, hplace] at hrun

end Blind

end NesConsole
