import Asm32.Operand
import Asm32.Instr.Basic

/-!
# Instructions from operands

The instruction of a group that a mnemonic asks for with its operands, and its word.

A group that has several mnemonics refuses one that is not its own before it looks at the
operands.  Operands of the wrong number or kind are refused with the form that the mnemonic
takes.
-/

namespace Asm32

namespace Instr

/-- The registers of operands that are all registers. -/
def registers? (ops : List Operand) : Option (List Reg) := ops.mapM Operand.reg?

def loadOf (m : String) : List Operand → Except Fault Instr
  | [.reg dest, .imm c] =>
    match Packed.pack? c with
    | some p => .ok (ldi dest p)
    | none   => .error (.unloadableConstant c)
  | _ => .error (.operandMismatch m Form.load.usage)

def aluOf (m : String) (ops : List Operand) : Except Fault Instr :=
  match AluOp.ofMnemonic? m with
  | none      => .error (.unknownMnemonic m)
  | some .tst =>
    match registers? ops with
    | some [src] => .ok (alu .tst .drop src none)
    | _          => .error (.operandMismatch m Form.test.usage)
  | some .not =>
    match registers? ops with
    | some [reg]       => .ok (alu .not reg reg none)
    | some [dest, src] => .ok (alu .not dest src none)
    | _                => .error (.operandMismatch m Form.complement.usage)
  | some op =>
    match registers? ops with
    | some [dest, src0, src1] => .ok (alu op dest src0 (some src1))
    | _                       => .error (.operandMismatch m Form.binary.usage)

def moveOf (m : String) (ops : List Operand) : Except Fault Instr :=
  match MoveOp.ofMnemonic? m with
  | none    => .error (.unknownMnemonic m)
  | some op =>
    match registers? ops with
    | some [dest, src] => .ok (move op dest src)
    | _                => .error (.operandMismatch m (Form.move op).usage)

def skipOf (m : String) (ops : List Operand) : Except Fault Instr :=
  match Cond.ofMnemonic? m with
  | none      => .error (.unknownMnemonic m)
  | some cond =>
    if ops.isEmpty then .ok (skip cond) else .error (.operandMismatch m Form.skip.usage)

/-- The instruction of a group that a mnemonic and its operands ask for. -/
def ofOperands (g : Group) (m : String) (ops : List Operand) : Except Fault Instr :=
  match g with
  | .loadImmediate => loadOf m ops
  | .alu           => aluOf m ops
  | .moveCopy      => moveOf m ops
  | .condFlow      => skipOf m ops

end Instr

/-- The word of the instruction that a mnemonic and its operands ask for. -/
def Group.encode (g : Group) (m : String) (ops : List Operand) : Except Fault UInt32 :=
  match Instr.ofOperands g m ops with
  | .error e => .error e
  | .ok i    => i.encode.mapError .malformedWord

/-- A way to make words from mnemonics and operands, and the group that it stands for. -/
structure Encoder where
  group : Group
  encode : String → List Operand → Except Fault UInt32

/-- The encoder of a group's own instructions. -/
def Group.encoder (g : Group) : Encoder := ⟨g, g.encode⟩

end Asm32
