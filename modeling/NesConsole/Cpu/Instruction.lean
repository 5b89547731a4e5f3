import NesConsole.Cpu.Operation
/-! The instruction set: addressing modes, and the 256 opcodes with their base cycles. Opcodes
without a stable behaviour have no instruction. -/
namespace NesConsole

inductive AddressingMode where
  | implied
  | accumulator
  | immediate
  | zeroPage
  | zeroPageX
  | zeroPageY
  | relative
  | absolute
  | absoluteX
  | absoluteY
  | indirect
  /-- In `(zp,X)` the pointer is indexed. -/
  | indexedIndirect
  /-- In `(zp),Y` the address that the pointer holds is indexed. -/
  | indirectIndexed
  deriving DecidableEq, Repr, Inhabited

def AddressingMode.operandLength : AddressingMode → Nat
  | .implied | .accumulator => 0
  | .absolute | .absoluteX | .absoluteY | .indirect => 2
  | _ => 1

structure Instruction where
  operation : Operation
  mode : AddressingMode
  /-- Cycles before those that a page crossing or a taken branch adds. -/
  cycles : Nat
  deriving DecidableEq, Repr, Inhabited

namespace Instruction

/-- A row for each high digit of the opcode, a column for each low digit. -/
def table : Vector (Vector (Option Instruction) 16) 16 := #v[
  -- $00
  #v[some ⟨.flow .brk, .implied, 7⟩, some ⟨.read .ora, .indexedIndirect, 6⟩,
    none, some ⟨.modify .slo, .indexedIndirect, 8⟩,
    some ⟨.register .nop, .zeroPage, 3⟩, some ⟨.read .ora, .zeroPage, 3⟩,
    some ⟨.modify .asl, .zeroPage, 5⟩, some ⟨.modify .slo, .zeroPage, 5⟩,
    some ⟨.flow .php, .implied, 3⟩, some ⟨.read .ora, .immediate, 2⟩,
    some ⟨.modify .asl, .accumulator, 2⟩, some ⟨.read .anc, .immediate, 2⟩,
    some ⟨.register .nop, .absolute, 4⟩, some ⟨.read .ora, .absolute, 4⟩,
    some ⟨.modify .asl, .absolute, 6⟩, some ⟨.modify .slo, .absolute, 6⟩],
  -- $10
  #v[some ⟨.branch .bpl, .relative, 2⟩, some ⟨.read .ora, .indirectIndexed, 5⟩,
    none, some ⟨.modify .slo, .indirectIndexed, 8⟩,
    some ⟨.register .nop, .zeroPageX, 4⟩, some ⟨.read .ora, .zeroPageX, 4⟩,
    some ⟨.modify .asl, .zeroPageX, 6⟩, some ⟨.modify .slo, .zeroPageX, 6⟩,
    some ⟨.register .clc, .implied, 2⟩, some ⟨.read .ora, .absoluteY, 4⟩,
    some ⟨.register .nop, .implied, 2⟩, some ⟨.modify .slo, .absoluteY, 7⟩,
    some ⟨.register .nop, .absoluteX, 4⟩, some ⟨.read .ora, .absoluteX, 4⟩,
    some ⟨.modify .asl, .absoluteX, 7⟩, some ⟨.modify .slo, .absoluteX, 7⟩],
  -- $20
  #v[some ⟨.flow .jsr, .absolute, 6⟩, some ⟨.read .and, .indexedIndirect, 6⟩,
    none, some ⟨.modify .rla, .indexedIndirect, 8⟩,
    some ⟨.read .bit, .zeroPage, 3⟩, some ⟨.read .and, .zeroPage, 3⟩,
    some ⟨.modify .rol, .zeroPage, 5⟩, some ⟨.modify .rla, .zeroPage, 5⟩,
    some ⟨.flow .plp, .implied, 4⟩, some ⟨.read .and, .immediate, 2⟩,
    some ⟨.modify .rol, .accumulator, 2⟩, some ⟨.read .anc, .immediate, 2⟩,
    some ⟨.read .bit, .absolute, 4⟩, some ⟨.read .and, .absolute, 4⟩,
    some ⟨.modify .rol, .absolute, 6⟩, some ⟨.modify .rla, .absolute, 6⟩],
  -- $30
  #v[some ⟨.branch .bmi, .relative, 2⟩, some ⟨.read .and, .indirectIndexed, 5⟩,
    none, some ⟨.modify .rla, .indirectIndexed, 8⟩,
    some ⟨.register .nop, .zeroPageX, 4⟩, some ⟨.read .and, .zeroPageX, 4⟩,
    some ⟨.modify .rol, .zeroPageX, 6⟩, some ⟨.modify .rla, .zeroPageX, 6⟩,
    some ⟨.register .sec, .implied, 2⟩, some ⟨.read .and, .absoluteY, 4⟩,
    some ⟨.register .nop, .implied, 2⟩, some ⟨.modify .rla, .absoluteY, 7⟩,
    some ⟨.register .nop, .absoluteX, 4⟩, some ⟨.read .and, .absoluteX, 4⟩,
    some ⟨.modify .rol, .absoluteX, 7⟩, some ⟨.modify .rla, .absoluteX, 7⟩],
  -- $40
  #v[some ⟨.flow .rti, .implied, 6⟩, some ⟨.read .eor, .indexedIndirect, 6⟩,
    none, some ⟨.modify .sre, .indexedIndirect, 8⟩,
    some ⟨.register .nop, .zeroPage, 3⟩, some ⟨.read .eor, .zeroPage, 3⟩,
    some ⟨.modify .lsr, .zeroPage, 5⟩, some ⟨.modify .sre, .zeroPage, 5⟩,
    some ⟨.flow .pha, .implied, 3⟩, some ⟨.read .eor, .immediate, 2⟩,
    some ⟨.modify .lsr, .accumulator, 2⟩, some ⟨.read .alr, .immediate, 2⟩,
    some ⟨.flow .jmp, .absolute, 3⟩, some ⟨.read .eor, .absolute, 4⟩,
    some ⟨.modify .lsr, .absolute, 6⟩, some ⟨.modify .sre, .absolute, 6⟩],
  -- $50
  #v[some ⟨.branch .bvc, .relative, 2⟩, some ⟨.read .eor, .indirectIndexed, 5⟩,
    none, some ⟨.modify .sre, .indirectIndexed, 8⟩,
    some ⟨.register .nop, .zeroPageX, 4⟩, some ⟨.read .eor, .zeroPageX, 4⟩,
    some ⟨.modify .lsr, .zeroPageX, 6⟩, some ⟨.modify .sre, .zeroPageX, 6⟩,
    some ⟨.register .cli, .implied, 2⟩, some ⟨.read .eor, .absoluteY, 4⟩,
    some ⟨.register .nop, .implied, 2⟩, some ⟨.modify .sre, .absoluteY, 7⟩,
    some ⟨.register .nop, .absoluteX, 4⟩, some ⟨.read .eor, .absoluteX, 4⟩,
    some ⟨.modify .lsr, .absoluteX, 7⟩, some ⟨.modify .sre, .absoluteX, 7⟩],
  -- $60
  #v[some ⟨.flow .rts, .implied, 6⟩, some ⟨.read .adc, .indexedIndirect, 6⟩,
    none, some ⟨.modify .rra, .indexedIndirect, 8⟩,
    some ⟨.register .nop, .zeroPage, 3⟩, some ⟨.read .adc, .zeroPage, 3⟩,
    some ⟨.modify .ror, .zeroPage, 5⟩, some ⟨.modify .rra, .zeroPage, 5⟩,
    some ⟨.flow .pla, .implied, 4⟩, some ⟨.read .adc, .immediate, 2⟩,
    some ⟨.modify .ror, .accumulator, 2⟩, some ⟨.read .arr, .immediate, 2⟩,
    some ⟨.flow .jmp, .indirect, 5⟩, some ⟨.read .adc, .absolute, 4⟩,
    some ⟨.modify .ror, .absolute, 6⟩, some ⟨.modify .rra, .absolute, 6⟩],
  -- $70
  #v[some ⟨.branch .bvs, .relative, 2⟩, some ⟨.read .adc, .indirectIndexed, 5⟩,
    none, some ⟨.modify .rra, .indirectIndexed, 8⟩,
    some ⟨.register .nop, .zeroPageX, 4⟩, some ⟨.read .adc, .zeroPageX, 4⟩,
    some ⟨.modify .ror, .zeroPageX, 6⟩, some ⟨.modify .rra, .zeroPageX, 6⟩,
    some ⟨.register .sei, .implied, 2⟩, some ⟨.read .adc, .absoluteY, 4⟩,
    some ⟨.register .nop, .implied, 2⟩, some ⟨.modify .rra, .absoluteY, 7⟩,
    some ⟨.register .nop, .absoluteX, 4⟩, some ⟨.read .adc, .absoluteX, 4⟩,
    some ⟨.modify .ror, .absoluteX, 7⟩, some ⟨.modify .rra, .absoluteX, 7⟩],
  -- $80
  #v[some ⟨.register .nop, .immediate, 2⟩, some ⟨.store .sta, .indexedIndirect, 6⟩,
    some ⟨.register .nop, .immediate, 2⟩, some ⟨.store .sax, .indexedIndirect, 6⟩,
    some ⟨.store .sty, .zeroPage, 3⟩, some ⟨.store .sta, .zeroPage, 3⟩,
    some ⟨.store .stx, .zeroPage, 3⟩, some ⟨.store .sax, .zeroPage, 3⟩,
    some ⟨.register .dey, .implied, 2⟩, some ⟨.register .nop, .immediate, 2⟩,
    some ⟨.register .txa, .implied, 2⟩, none,
    some ⟨.store .sty, .absolute, 4⟩, some ⟨.store .sta, .absolute, 4⟩,
    some ⟨.store .stx, .absolute, 4⟩, some ⟨.store .sax, .absolute, 4⟩],
  -- $90
  #v[some ⟨.branch .bcc, .relative, 2⟩, some ⟨.store .sta, .indirectIndexed, 6⟩,
    none, none,
    some ⟨.store .sty, .zeroPageX, 4⟩, some ⟨.store .sta, .zeroPageX, 4⟩,
    some ⟨.store .stx, .zeroPageY, 4⟩, some ⟨.store .sax, .zeroPageY, 4⟩,
    some ⟨.register .tya, .implied, 2⟩, some ⟨.store .sta, .absoluteY, 5⟩,
    some ⟨.register .txs, .implied, 2⟩, none,
    none, some ⟨.store .sta, .absoluteX, 5⟩,
    none, none],
  -- $A0
  #v[some ⟨.read .ldy, .immediate, 2⟩, some ⟨.read .lda, .indexedIndirect, 6⟩,
    some ⟨.read .ldx, .immediate, 2⟩, some ⟨.read .lax, .indexedIndirect, 6⟩,
    some ⟨.read .ldy, .zeroPage, 3⟩, some ⟨.read .lda, .zeroPage, 3⟩,
    some ⟨.read .ldx, .zeroPage, 3⟩, some ⟨.read .lax, .zeroPage, 3⟩,
    some ⟨.register .tay, .implied, 2⟩, some ⟨.read .lda, .immediate, 2⟩,
    some ⟨.register .tax, .implied, 2⟩, none,
    some ⟨.read .ldy, .absolute, 4⟩, some ⟨.read .lda, .absolute, 4⟩,
    some ⟨.read .ldx, .absolute, 4⟩, some ⟨.read .lax, .absolute, 4⟩],
  -- $B0
  #v[some ⟨.branch .bcs, .relative, 2⟩, some ⟨.read .lda, .indirectIndexed, 5⟩,
    none, some ⟨.read .lax, .indirectIndexed, 5⟩,
    some ⟨.read .ldy, .zeroPageX, 4⟩, some ⟨.read .lda, .zeroPageX, 4⟩,
    some ⟨.read .ldx, .zeroPageY, 4⟩, some ⟨.read .lax, .zeroPageY, 4⟩,
    some ⟨.register .clv, .implied, 2⟩, some ⟨.read .lda, .absoluteY, 4⟩,
    some ⟨.register .tsx, .implied, 2⟩, none,
    some ⟨.read .ldy, .absoluteX, 4⟩, some ⟨.read .lda, .absoluteX, 4⟩,
    some ⟨.read .ldx, .absoluteY, 4⟩, some ⟨.read .lax, .absoluteY, 4⟩],
  -- $C0
  #v[some ⟨.read .cpy, .immediate, 2⟩, some ⟨.read .cmp, .indexedIndirect, 6⟩,
    some ⟨.register .nop, .immediate, 2⟩, some ⟨.modify .dcp, .indexedIndirect, 8⟩,
    some ⟨.read .cpy, .zeroPage, 3⟩, some ⟨.read .cmp, .zeroPage, 3⟩,
    some ⟨.modify .dec, .zeroPage, 5⟩, some ⟨.modify .dcp, .zeroPage, 5⟩,
    some ⟨.register .iny, .implied, 2⟩, some ⟨.read .cmp, .immediate, 2⟩,
    some ⟨.register .dex, .implied, 2⟩, some ⟨.read .axs, .immediate, 2⟩,
    some ⟨.read .cpy, .absolute, 4⟩, some ⟨.read .cmp, .absolute, 4⟩,
    some ⟨.modify .dec, .absolute, 6⟩, some ⟨.modify .dcp, .absolute, 6⟩],
  -- $D0
  #v[some ⟨.branch .bne, .relative, 2⟩, some ⟨.read .cmp, .indirectIndexed, 5⟩,
    none, some ⟨.modify .dcp, .indirectIndexed, 8⟩,
    some ⟨.register .nop, .zeroPageX, 4⟩, some ⟨.read .cmp, .zeroPageX, 4⟩,
    some ⟨.modify .dec, .zeroPageX, 6⟩, some ⟨.modify .dcp, .zeroPageX, 6⟩,
    some ⟨.register .cld, .implied, 2⟩, some ⟨.read .cmp, .absoluteY, 4⟩,
    some ⟨.register .nop, .implied, 2⟩, some ⟨.modify .dcp, .absoluteY, 7⟩,
    some ⟨.register .nop, .absoluteX, 4⟩, some ⟨.read .cmp, .absoluteX, 4⟩,
    some ⟨.modify .dec, .absoluteX, 7⟩, some ⟨.modify .dcp, .absoluteX, 7⟩],
  -- $E0
  #v[some ⟨.read .cpx, .immediate, 2⟩, some ⟨.read .sbc, .indexedIndirect, 6⟩,
    some ⟨.register .nop, .immediate, 2⟩, some ⟨.modify .isc, .indexedIndirect, 8⟩,
    some ⟨.read .cpx, .zeroPage, 3⟩, some ⟨.read .sbc, .zeroPage, 3⟩,
    some ⟨.modify .inc, .zeroPage, 5⟩, some ⟨.modify .isc, .zeroPage, 5⟩,
    some ⟨.register .inx, .implied, 2⟩, some ⟨.read .sbc, .immediate, 2⟩,
    some ⟨.register .nop, .implied, 2⟩, some ⟨.read .sbc, .immediate, 2⟩,
    some ⟨.read .cpx, .absolute, 4⟩, some ⟨.read .sbc, .absolute, 4⟩,
    some ⟨.modify .inc, .absolute, 6⟩, some ⟨.modify .isc, .absolute, 6⟩],
  -- $F0
  #v[some ⟨.branch .beq, .relative, 2⟩, some ⟨.read .sbc, .indirectIndexed, 5⟩,
    none, some ⟨.modify .isc, .indirectIndexed, 8⟩,
    some ⟨.register .nop, .zeroPageX, 4⟩, some ⟨.read .sbc, .zeroPageX, 4⟩,
    some ⟨.modify .inc, .zeroPageX, 6⟩, some ⟨.modify .isc, .zeroPageX, 6⟩,
    some ⟨.register .sed, .implied, 2⟩, some ⟨.read .sbc, .absoluteY, 4⟩,
    some ⟨.register .nop, .implied, 2⟩, some ⟨.modify .isc, .absoluteY, 7⟩,
    some ⟨.register .nop, .absoluteX, 4⟩, some ⟨.read .sbc, .absoluteX, 4⟩,
    some ⟨.modify .inc, .absoluteX, 7⟩, some ⟨.modify .isc, .absoluteX, 7⟩]]

def decode? (opcode : UInt8) : Option Instruction :=
  have h := opcode.toNat_lt
  table[opcode.toNat / 16][opcode.toNat % 16]

/-- What holds of every entry of the table holds of what is decoded. -/
theorem of_decode? {p : Instruction → Bool}
    (hp : ∀ row column : Fin 16, (table[row][column]).all p = true) {opcode : UInt8}
    {i : Instruction} (h : decode? opcode = some i) : p i = true := by
  have hop := opcode.toNat_lt
  have hi : (decode? opcode).all p = true :=
    hp ⟨opcode.toNat / 16, by omega⟩ ⟨opcode.toNat % 16, by omega⟩
  rw [h] at hi
  exact hi

def mnemonic (i : Instruction) : String := i.operation.mnemonic

end Instruction
end NesConsole
