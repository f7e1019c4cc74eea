/-!
# Arithmetic and logic operations

The operations between registers.  `not` and `tst` take one source; the others take two.
-/

namespace Asm32

inductive AluOp
  | add
  | sub
  /-- Add with carry. -/
  | addc
  /-- Subtract with borrow. -/
  | subc
  | or
  | xor
  | and
  | not
  /-- Shift left. -/
  | sll
  /-- Shift right, filling with zeros. -/
  | slr
  /-- Set the flags from a source and discard the result. -/
  | tst
deriving DecidableEq, Repr

namespace AluOp

def all : List AluOp := [add, sub, addc, subc, .or, .xor, .and, .not, sll, slr, tst]

/-- The code of an operation in a word. -/
def code : AluOp → Nat
  | add  => 0
  | sub  => 1
  | addc => 2
  | subc => 3
  | .or  => 4
  | .xor => 5
  | .and => 6
  | .not => 7
  | sll  => 8
  | slr  => 9
  | tst  => 10

/-- The operation of a code. -/
def ofCode? (c : Nat) : Option AluOp := all.find? (·.code == c)

def mnemonic : AluOp → String
  | add  => "add"
  | sub  => "sub"
  | addc => "addc"
  | subc => "subc"
  | .or  => "or"
  | .xor => "xor"
  | .and => "and"
  | .not => "not"
  | sll  => "sll"
  | slr  => "slr"
  | tst  => "tst"

/-- The operation of a mnemonic; `test` is another spelling of `tst`. -/
def ofMnemonic? (m : String) : Option AluOp :=
  if m = "test" then some tst else all.find? (·.mnemonic == m)

/-- The name of an operation in reports. -/
def name : AluOp → String
  | add  => "Add"
  | sub  => "Sub"
  | addc => "Addc"
  | subc => "Subc"
  | .or  => "Or"
  | .xor => "Xor"
  | .and => "And"
  | .not => "Not"
  | sll  => "Sll"
  | slr  => "Slr"
  | tst  => "Tst"

def ofName? (n : String) : Option AluOp := all.find? (·.name == n)

/-- The operation takes one source. -/
def isUnary : AluOp → Bool
  | .not | tst => true
  | _          => false

/-- An operation is read back from its code. -/
theorem ofCode?_code (op : AluOp) : ofCode? op.code = some op := by cases op <;> rfl

end AluOp

end Asm32
