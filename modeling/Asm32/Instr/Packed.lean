/-!
# Packed constants

The load instruction holds a constant as seventeen bits and a shift of four: the seventeen bits
are extended by their sign to a word and moved left by the shift.

Packing narrows the word of a constant one bit at a time from thirty-two bits to seventeen.  A
sign bit that the bit below it repeats is dropped first; when there is none, a zero at the low end
is dropped and counted in the shift.  A constant that runs out of both cannot be loaded.
-/

namespace Asm32

/-- The width of a packed value. -/
def packedBits : Nat := 17

structure Packed where
  value : UInt32
  shift : UInt8
deriving DecidableEq, Repr

namespace Packed

/-- The word that a packed constant loads: the low seventeen bits of the value, extended by their
sign, moved left by the shift. -/
def unpack (p : Packed) : UInt32 :=
  UInt32.ofBitVec ((p.value.toBitVec.setWidth packedBits).signExtend 32) <<< p.shift.toUInt32

/-- Narrows a value of `17 + n` bits, whose sign bits are `sign`, by `n` bits; `shift` bits were
dropped at the low end before. -/
def narrow (sign : Bool) : (n value shift : Nat) → Option Packed
  | 0, value, shift     => some ⟨UInt32.ofNat value, UInt8.ofNat shift⟩
  | n + 1, value, shift =>
    if value.testBit (packedBits + n) = sign ∧ value.testBit (packedBits + n - 1) = sign then
      narrow sign n (value % (1 <<< (packedBits + n))) shift
    else if value % 2 = 0 then narrow sign n (value / 2) (shift + 1)
    else none

/-- The packed form of a constant that a word can hold, signed or unsigned. -/
def pack? (c : Int) : Option Packed :=
  if -0x80000000 ≤ c ∧ c ≤ 0xFFFFFFFF then
    let w := (UInt32.ofInt c).toNat
    narrow (w.testBit 31) 15 w 0
  else none

end Packed

end Asm32
