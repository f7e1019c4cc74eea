import Asm32.Field
import Asm32.Instr.MoveOp

/-!
# Faults

Why a line of source is refused, and the words in which that is reported.
-/

namespace Asm32

/-- The shapes of operands that instructions take. -/
inductive Form
  | load
  | binary
  | complement
  | test
  | move (op : MoveOp)
  | skip
deriving DecidableEq, Repr

/-- A form as it is shown to the user. -/
def Form.usage : Form → String
  | .load       => "ldi dest, const"
  | .binary     => "op dest, src0, src1"
  | .complement => "not dest, src | not reg"
  | .test       => "tst src"
  | .move .mv   => "mv dest, src"
  | .move .ldm  => "ldm dest, addr"
  | .move .stm  => "stm addr, src"
  | .skip       => "no operands"

inductive Fault
  | invalidRegister (token : String)
  | invalidNumber (token : String)
  | unknownOperand (token : String)
  | unknownMnemonic (mnemonic : String)
  | unloadableConstant (value : Int)
  | undefinedLabel (name : String)
  /-- The operands are not those of the form that is shown. -/
  | operandMismatch (mnemonic usage : String)
  | malformedLabel (code : String)
  /-- The name is bound already, by the given line. -/
  | duplicateLabel (name : String) (line : Nat)
  /-- The fields of an instruction make no word. -/
  | malformedWord (error : FieldError)
deriving DecidableEq, Repr

def Fault.message : Fault → String
  | .invalidRegister t =>
    "invalid register `" ++ t ++ "` (expected r0..r15, pc, sp, flags or drop)"
  | .invalidNumber t      => "invalid numeric operand `" ++ t ++ "`"
  | .unknownOperand t     => "unknown operand `" ++ t ++ "`"
  | .unknownMnemonic m    => "unknown mnemonic `" ++ m ++ "`"
  | .unloadableConstant c =>
    "ldi constant " ++ Numeral.signed c ++ " does not fit a 17-bit value with a 4-bit shift"
  | .undefinedLabel n    => "label `" ++ n ++ "` is never defined"
  | .operandMismatch m u => "operand mismatch for `" ++ m ++ "`, expected: " ++ u
  | .malformedLabel c    => "malformed label declaration `" ++ c ++ "` (expected `@name:`)"
  | .duplicateLabel n l  => "label `" ++ n ++ "` already defined in line " ++ Numeral.decimal l
  | .malformedWord e     => e.message

/-- A fault with the line it stands in. -/
structure LineFault where
  line : Nat
  fault : Fault
deriving DecidableEq, Repr

def LineFault.message (e : LineFault) : String :=
  "error in line " ++ Numeral.decimal e.line ++ ": " ++ e.fault.message

end Asm32
