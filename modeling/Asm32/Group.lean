import Asm32.Field

/-!
# Instruction groups

The first five bits of a word name the group of its instruction.  A group has its own layout of
the remaining bits and its own mnemonics.
-/

namespace Asm32

/-- The width of the group in a word. -/
def groupBits : Nat := 5

inductive Group
  | loadImmediate
  | alu
  | moveCopy
  | condFlow
deriving DecidableEq, Repr

namespace Group

def all : List Group := [loadImmediate, alu, moveCopy, condFlow]

/-- The code of a group in a word. -/
def code : Group → Nat
  | loadImmediate => 0
  | alu           => 1
  | moveCopy      => 2
  | condFlow      => 3

/-- The group of a code. -/
def ofCode? (c : Nat) : Option Group := all.find? (·.code == c)

/-- The group that a word's first bits name. -/
def ofWord? (raw : UInt32) : Option Group := ofCode? (bitsAt raw 0 groupBits)

/-- The name of a group in reports. -/
def name : Group → String
  | loadImmediate => "LoadImmediate"
  | alu           => "Alu"
  | moveCopy      => "MoveCopy"
  | condFlow      => "CondFlow"

def ofName? (n : String) : Option Group := all.find? (·.name == n)

/-- The mnemonics of a group's instructions. -/
def mnemonics : Group → List String
  | loadImmediate => ["ldi"]
  | alu => ["add", "sub", "addc", "subc", "or", "xor", "and", "not", "sll", "slr", "tst", "test"]
  | moveCopy => ["mv", "ldm", "stm"]
  | condFlow => ["scs", "scc", "szs", "szc", "sns", "snc"]

theorem code_lt (g : Group) : g.code < 1 <<< groupBits := by cases g <;> decide

/-- A group is read back from its code. -/
theorem ofCode?_code (g : Group) : ofCode? g.code = some g := by cases g <;> rfl

/-- The bits with which a word of the group starts. -/
def bits (g : Group) : Bits := Bits.empty.append g.code groupBits g.code_lt

end Group

end Asm32
