import NesConsole.Cpu.Registers
/-! What instructions do, grouped by the accesses they make at their operand, with the effect of
each on the registers. -/
namespace NesConsole

inductive ReadOp where
  | lda | ldx | ldy | lax | adc | sbc | and | ora | eor | bit | cmp | cpx | cpy
  | anc | alr | arr | axs
  deriving DecidableEq, Repr, Inhabited

/-- Operations that write a register at their operand and read nothing there. -/
inductive StoreOp where
  | sta | stx | sty | sax
  deriving DecidableEq, Repr, Inhabited

inductive ModifyOp where
  | asl | lsr | rol | ror | inc | dec | slo | rla | sre | rra | dcp | isc
  deriving DecidableEq, Repr, Inhabited

inductive RegisterOp where
  | tax | tay | tsx | txa | txs | tya | inx | iny | dex | dey
  | clc | cld | cli | clv | sec | sed | sei | nop
  deriving DecidableEq, Repr, Inhabited

inductive BranchOp where
  | bcc | bcs | bne | beq | bpl | bmi | bvc | bvs
  deriving DecidableEq, Repr, Inhabited

inductive FlowOp where
  | pha | php | pla | plp | jmp | jsr | rts | brk | rti
  deriving DecidableEq, Repr, Inhabited

inductive Operation where
  | read (op : ReadOp)
  | store (op : StoreOp)
  | modify (op : ModifyOp)
  | register (op : RegisterOp)
  | branch (op : BranchOp)
  | flow (op : FlowOp)
  deriving DecidableEq, Repr, Inhabited

open Registers

def ReadOp.apply (v : UInt8) (r : Registers) : ReadOp → Registers
  | .lda => loadA v r
  | .ldx => loadX v r
  | .ldy => loadY v r
  | .lax => loadA v { r with x := v }
  | .adc => add v r
  | .sbc => subtract v r
  | .and => loadA (r.a &&& v) r
  | .ora => loadA (r.a ||| v) r
  | .eor => loadA (r.a ^^^ v) r
  | .bit => testBits v r
  | .cmp => compare r.a v r
  | .cpx => compare r.x v r
  | .cpy => compare r.y v r
  | .anc => setCarry (hasBit (r.a &&& v) 7) (loadA (r.a &&& v) r)
  | .alr => loadA (shiftRight (r.a &&& v) false) (setCarry (hasBit (r.a &&& v) 0) r)
  | .arr =>
    let a := shiftRight (r.a &&& v) r.p.carry
    let r := loadA a r
    { r with p := { r.p with carry := hasBit a 6, overflow := hasBit a 6 != hasBit a 5 } }
  | .axs => compare (r.a &&& r.x) v { r with x := (r.a &&& r.x) - v }

def StoreOp.source (r : Registers) : StoreOp → UInt8
  | .sta => r.a
  | .stx => r.x
  | .sty => r.y
  | .sax => r.a &&& r.x

/-- The byte to write back for `v`, and the registers at the moment of that write. -/
def ModifyOp.change (v : UInt8) (r : Registers) : ModifyOp → UInt8 × Registers
  | .asl | .slo => (shiftLeft v false, setCarry (hasBit v 7) r)
  | .lsr | .sre => (shiftRight v false, setCarry (hasBit v 0) r)
  | .rol | .rla => (shiftLeft v r.p.carry, setCarry (hasBit v 7) r)
  | .ror | .rra => (shiftRight v r.p.carry, setCarry (hasBit v 0) r)
  | .inc | .isc => (v + 1, r)
  | .dec | .dcp => (v - 1, r)

def ModifyOp.finish (v : UInt8) (r : Registers) : ModifyOp → Registers
  | .asl | .lsr | .rol | .ror | .inc | .dec => flag v r
  | .slo => loadA (r.a ||| v) r
  | .rla => loadA (r.a &&& v) r
  | .sre => loadA (r.a ^^^ v) r
  | .rra => add v r
  | .dcp => compare r.a v r
  | .isc => subtract v r

def RegisterOp.apply (r : Registers) : RegisterOp → Registers
  | .tax => loadX r.a r
  | .tay => loadY r.a r
  | .tsx => loadX r.sp r
  | .txa => loadA r.x r
  | .txs => { r with sp := r.x }
  | .tya => loadA r.y r
  | .inx => loadX (r.x + 1) r
  | .iny => loadY (r.y + 1) r
  | .dex => loadX (r.x - 1) r
  | .dey => loadY (r.y - 1) r
  | .clc => { r with p := { r.p with carry := false } }
  | .cld => { r with p := { r.p with decimal := false } }
  | .cli => { r with p := { r.p with interruptDisable := false } }
  | .clv => { r with p := { r.p with overflow := false } }
  | .sec => { r with p := { r.p with carry := true } }
  | .sed => { r with p := { r.p with decimal := true } }
  | .sei => { r with p := { r.p with interruptDisable := true } }
  | .nop => r

def BranchOp.holds (p : Status) : BranchOp → Bool
  | .bcc => !p.carry
  | .bcs => p.carry
  | .bne => !p.zero
  | .beq => p.zero
  | .bpl => !p.negative
  | .bmi => p.negative
  | .bvc => !p.overflow
  | .bvs => p.overflow

namespace Operation

/-- Operations that take one cycle more when indexing leaves the page of the base address. -/
def pagePenalty : Operation → Bool
  | .read .lda | .read .ldx | .read .ldy | .read .lax | .read .adc | .read .sbc
  | .read .and | .read .ora | .read .eor | .read .cmp | .register .nop => true
  | _ => false

def mnemonic : Operation → String
  | .read .lda => "LDA" | .read .ldx => "LDX" | .read .ldy => "LDY" | .read .lax => "LAX"
  | .read .adc => "ADC" | .read .sbc => "SBC" | .read .and => "AND" | .read .ora => "ORA"
  | .read .eor => "EOR" | .read .bit => "BIT" | .read .cmp => "CMP" | .read .cpx => "CPX"
  | .read .cpy => "CPY" | .read .anc => "ANC" | .read .alr => "ALR" | .read .arr => "ARR"
  | .read .axs => "AXS"
  | .store .sta => "STA" | .store .stx => "STX" | .store .sty => "STY" | .store .sax => "SAX"
  | .modify .asl => "ASL" | .modify .lsr => "LSR" | .modify .rol => "ROL" | .modify .ror => "ROR"
  | .modify .inc => "INC" | .modify .dec => "DEC" | .modify .slo => "SLO" | .modify .rla => "RLA"
  | .modify .sre => "SRE" | .modify .rra => "RRA" | .modify .dcp => "DCP" | .modify .isc => "ISC"
  | .register .tax => "TAX" | .register .tay => "TAY" | .register .tsx => "TSX"
  | .register .txa => "TXA" | .register .txs => "TXS" | .register .tya => "TYA"
  | .register .inx => "INX" | .register .iny => "INY" | .register .dex => "DEX"
  | .register .dey => "DEY" | .register .clc => "CLC" | .register .cld => "CLD"
  | .register .cli => "CLI" | .register .clv => "CLV" | .register .sec => "SEC"
  | .register .sed => "SED" | .register .sei => "SEI" | .register .nop => "NOP"
  | .branch .bcc => "BCC" | .branch .bcs => "BCS" | .branch .bne => "BNE" | .branch .beq => "BEQ"
  | .branch .bpl => "BPL" | .branch .bmi => "BMI" | .branch .bvc => "BVC" | .branch .bvs => "BVS"
  | .flow .pha => "PHA" | .flow .php => "PHP" | .flow .pla => "PLA" | .flow .plp => "PLP"
  | .flow .jmp => "JMP" | .flow .jsr => "JSR" | .flow .rts => "RTS" | .flow .brk => "BRK"
  | .flow .rti => "RTI"

end Operation
end NesConsole
