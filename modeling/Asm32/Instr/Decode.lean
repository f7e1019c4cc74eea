import Asm32.Instr.Basic

/-!
# Reading a word

The instruction that a word holds.  A word whose fixed bits are wrong, or whose fields name no
register, operation or condition, holds none.
-/

namespace Asm32.Instr

def decodeLoad? (raw : UInt32) : Option Instr := do
  guard (bitsAt raw 5 1 = 0)
  let dest ← Reg.ofCode? (bitsAt raw 27 registerBits)
  return ldi dest ⟨UInt32.ofNat (bitsAt raw 10 packedBits), UInt8.ofNat (bitsAt raw 6 4)⟩

def decodeAlu? (raw : UInt32) : Option Instr := do
  guard (bitsAt raw 5 7 = 0)
  let op ← AluOp.ofCode? (bitsAt raw 12 5)
  let src0 ← Reg.ofCode? (bitsAt raw 22 registerBits)
  let dest ← Reg.ofCode? (bitsAt raw 27 registerBits)
  if op.isUnary then
    guard (bitsAt raw 17 registerBits = 0 ∧ (op = .tst → dest = .drop))
    return alu op dest src0 none
  else
    let src1 ← Reg.ofCode? (bitsAt raw 17 registerBits)
    return alu op dest src0 (some src1)

def decodeMove? (raw : UInt32) : Option Instr := do
  guard (bitsAt raw 5 10 = 0)
  let a := bitsAt raw 17 registerBits
  let b := bitsAt raw 22 registerBits
  let c := bitsAt raw 27 registerBits
  match bitsAt raw 15 2 with
  | 0 => guard (a = 0); return move .mv (← Reg.ofCode? c) (← Reg.ofCode? b)
  | 1 => guard (b = 0); return move .ldm (← Reg.ofCode? c) (← Reg.ofCode? a)
  | 2 => guard (c = 31); return move .stm (← Reg.ofCode? a) (← Reg.ofCode? b)
  | _ => none

def decodeSkip? (raw : UInt32) : Option Instr := do
  guard (bitsAt raw 5 18 = 0 ∧ bitsAt raw 27 5 = 31)
  let cond : Cond := ⟨UInt8.ofNat (bitsAt raw 23 4)⟩
  guard cond.mnemonic?.isSome
  return skip cond

/-- The instruction that a word holds. -/
def decode? (raw : UInt32) : Option Instr := do
  match ← Group.ofWord? raw with
  | .loadImmediate => decodeLoad? raw
  | .alu           => decodeAlu? raw
  | .moveCopy      => decodeMove? raw
  | .condFlow      => decodeSkip? raw

end Asm32.Instr
