/-!
# Moves

A register is copied to a register (`mv`), loaded from the memory cell whose address another
register holds (`ldm`), or stored to such a cell (`stm`).
-/

namespace Asm32

inductive MoveOp
  | mv
  | ldm
  | stm
deriving DecidableEq, Repr

namespace MoveOp

def all : List MoveOp := [mv, ldm, stm]

/-- The code of a move in a word. -/
def code : MoveOp → Nat
  | mv  => 0
  | ldm => 1
  | stm => 2

def mnemonic : MoveOp → String
  | mv  => "mv"
  | ldm => "ldm"
  | stm => "stm"

/-- The move of a mnemonic. -/
def ofMnemonic? (m : String) : Option MoveOp := all.find? (·.mnemonic == m)

/-- The name of a move in reports. -/
def name : MoveOp → String
  | mv  => "Mv"
  | ldm => "Ldm"
  | stm => "Stm"

def ofName? (n : String) : Option MoveOp := all.find? (·.name == n)

end MoveOp

end Asm32
