import Asm32.Instr.Basic

/-!
# The text of an instruction

An instruction as a line of source: its mnemonic, then its operands with commas between them.
A constant is written in hexadecimal as the word that it loads.
-/

namespace Asm32.Instr

def text : Instr → String
  | ldi dest p                   => "ldi " ++ dest.name ++ ", 0x" ++ Numeral.hex p.unpack.toNat
  | alu .tst _ src0 _            => "tst " ++ src0.name
  | alu op dest src0 none        => op.mnemonic ++ " " ++ dest.name ++ ", " ++ src0.name
  | alu op dest src0 (some src1) =>
    op.mnemonic ++ " " ++ dest.name ++ ", " ++ src0.name ++ ", " ++ src1.name
  | move op dest src => op.mnemonic ++ " " ++ dest.name ++ ", " ++ src.name
  | skip cond        => cond.mnemonic?.getD "s??"

end Asm32.Instr
