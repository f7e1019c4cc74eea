import Asm32.Group
import Asm32.Instr.AluOp
import Asm32.Instr.MoveOp
import Asm32.Instr.Cond
import Asm32.Instr.Packed

/-!
# Instructions and their words

An instruction of the machine, and the fields of the word that holds it.

| instruction | fields after the group |
|---|---|
| load | zero (1), shift (4), value (17), destination (5) |
| operation | zeros (7), operation (5), source 1 or zeros (5), source 0 (5), destination (5) |
| `mv` | zeros (10), move (2), zeros (5), source (5), destination (5) |
| `ldm` | zeros (10), move (2), address (5), zeros (5), destination (5) |
| `stm` | zeros (10), move (2), address (5), source (5), ones (5) |
| skip | zeros (18), condition (4), ones (5) |
-/

namespace Asm32

inductive Instr
  /-- Load a constant into a register. -/
  | ldi (dest : Reg) (packed : Packed)
  /-- Combine registers; a unary operation has no second source. -/
  | alu (op : AluOp) (dest src0 : Reg) (src1 : Option Reg)
  /-- Copy between registers or memory. -/
  | move (op : MoveOp) (dest src : Reg)
  /-- Skip the next instruction on a condition. -/
  | skip (cond : Cond)
deriving DecidableEq, Repr

namespace Instr

def group : Instr → Group
  | ldi ..  => .loadImmediate
  | alu ..  => .alu
  | move .. => .moveCopy
  | skip .. => .condFlow

/-- The fields of an instruction's word after its group. -/
def fields : Instr → List Field
  | ldi dest p =>
    [.zeros 1, .number p.shift.toNat 4, .number p.value.toNat packedBits, .register dest]
  | alu op dest src0 src1 =>
    [.zeros 7, .number op.code 5, (src1.map Field.register).getD (.zeros registerBits),
      .register src0, .register dest]
  | move .mv dest src =>
    [.zeros 10, .number MoveOp.mv.code 2, .zeros registerBits, .register src, .register dest]
  | move .ldm dest src =>
    [.zeros 10, .number MoveOp.ldm.code 2, .register src, .zeros registerBits, .register dest]
  | move .stm dest src =>
    [.zeros 10, .number MoveOp.stm.code 2, .register dest, .register src, .ones registerBits]
  | skip cond => [.zeros 18, .number cond.bits.toNat 4, .ones registerBits]

/-- The word of an instruction. -/
def encode (i : Instr) : Except FieldError UInt32 :=
  (i.group.bits.writeAll i.fields).bind Bits.finish

end Instr

end Asm32
