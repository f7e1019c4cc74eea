import Asm32.Numeral
import Asm32.Text.Blank

/-!
# Conditions

A condition selects flags of the machine (carry, zero, negative) and says whether they must be
set or clear.  It is a byte of which the instruction set uses four bits; the other four are kept
as they are.

The text of a condition lists its flags, joined by bars, and ends with the bits that have no name
in hexadecimal.
-/

namespace Asm32

structure Cond where
  bits : UInt8
deriving DecidableEq, Repr

namespace Cond

/-- The flags with their bits, in the order in which a text lists them. -/
def flagNames : List (String × UInt8) := [("CARRY", 1), ("ZERO", 2), ("NEGATIVE", 4), ("CLEAR", 8)]

/-- The bits that a flag names. -/
def namedBits : UInt8 := 15

/-- The condition of a byte that has named bits only. -/
def ofBits? (b : UInt8) : Option Cond := if b &&& ~~~namedBits = 0 then some ⟨b⟩ else none

/-- The skip instructions with the bits of their conditions. -/
def skips : List (String × UInt8) :=
  [("scs", 1), ("scc", 9), ("szs", 2), ("szc", 10), ("sns", 4), ("snc", 12)]

/-- The condition of a skip instruction. -/
def ofMnemonic? (m : String) : Option Cond := (skips.lookup m).map Cond.mk

/-- The skip instruction on a condition. -/
def mnemonic? (c : Cond) : Option String := (skips.find? (·.2 == c.bits)).map (·.1)

/-- The condition as text. -/
def text (c : Cond) : String :=
  let names := (flagNames.filter fun f => c.bits &&& f.2 != 0).map (·.1)
  let rest := c.bits &&& ~~~namedBits
  let parts := if rest = 0 then names else names ++ ["0x" ++ Numeral.hex rest.toNat]
  " | ".intercalate parts

/-- One part of a condition's text: the name of a flag, or bits in hexadecimal. -/
def partBits? : List Char → Option UInt8
  | '0' :: 'x' :: ds => (Numeral.readBelow 16 UInt8.size ds).toOption.map UInt8.ofNat
  | cs               => flagNames.lookup (String.ofList cs)

/-- The pieces of a text between bars. -/
def splitBars : List Char → List (List Char)
  | []        => [[]]
  | '|' :: cs => [] :: splitBars cs
  | c :: cs   =>
    match splitBars cs with
    | []      => [[c]]
    | p :: ps => (c :: p) :: ps

/-- The condition of a text.  A blank text has no bits. -/
def ofText? (s : String) : Option Cond :=
  let cs := s.toList
  if cs.all Text.isBlank then some ⟨0⟩
  else
    ((splitBars cs).mapM fun p => partBits? (Text.trim p)).map fun bs =>
      ⟨bs.foldl (· ||| ·) 0⟩

end Cond

end Asm32
