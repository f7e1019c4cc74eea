import Asm32.Proofs.BitOrder
import Asm32.Proofs.Packing

/-!
# What a packed constant loads

A packed constant is read in three ways.  As a number it is its signed value times a power of two,
modulo `2 ^ 32` (`Packed.toNat_unpack`).  Bit by bit it is its value, moved up by the shift, with
the sign above it and zeros below (`Packed.testBit_unpack`); with a shift of at most fifteen the
word is the extended value followed by the zeros (`Packed.bitList_unpack`).  As an operation on
words it is a shift left by fifteen bits, an arithmetic shift back, and a shift left
(`Packed.unpack_eq_shifts`).

**Unpacking** (`Packed.unpack_exact`).  The three readings give the same word.
-/

namespace Asm32

/-- The lowest `n` bits of a number, most significant first, after as many copies of the highest of
them as make `w` bits. -/
def extendedBits (v n w : Nat) : List Bool :=
  List.replicate (w - n) (v.testBit (n - 1)) ++ bitList v n

namespace Packed

/-- The lowest seventeen bits of a word, extended by their sign, repeat bit 16 from there on. -/
theorem getLsbD_signExtend_packed (x : UInt32) {i : Nat} (hi : i < 32) :
    ((x.toBitVec.setWidth packedBits).signExtend 32).getLsbD i = x.toNat.testBit (min i 16) := by
  rw [BitVec.getLsbD_signExtend, decide_eq_true hi, Bool.true_and, packedBits]
  by_cases hlow : i < 17
  · rw [if_pos hlow, BitVec.getLsbD_setWidth, decide_eq_true hlow, Bool.true_and,
      Nat.min_eq_left (by omega)]
    rfl
  · rw [if_neg hlow, BitVec.msb_setWidth, Nat.min_eq_right (by omega)]
    rfl

/-- A bit of the loaded word is the bit of the value as many places below it as the shift says; the
value goes on with its sign, and nothing is below it. -/
theorem testBit_unpack (p : Packed) (hs : p.shift.toNat < 32) {i : Nat} (hi : i < 32) :
    p.unpack.toNat.testBit i =
      (decide (p.shift.toNat ≤ i) && p.value.toNat.testBit (min (i - p.shift.toNat) 16)) := by
  rw [unpack, UInt32.toNat_shiftLeft, UInt8.toNat_toUInt32, Nat.mod_eq_of_lt hs,
    Nat.testBit_mod_two_pow, decide_eq_true hi, Bool.true_and, Nat.testBit_shiftLeft]
  congr 1
  exact getLsbD_signExtend_packed p.value (by omega)

/-- With a shift of at most fifteen, the loaded word spells the value, extended by its sign to what
the shift leaves of a word, and then a zero for each place of the shift. -/
theorem bitList_unpack {p : Packed} (hs : p.shift.toNat ≤ 15) :
    bitList p.unpack.toNat 32 =
      extendedBits p.value.toNat 17 (32 - p.shift.toNat) ++ List.replicate p.shift.toNat false := by
  have hbit := fun i hi => p.testBit_unpack (by omega) (i := i) hi
  generalize p.shift.toNat = s at hs hbit
  generalize p.unpack.toNat = n at hbit
  have hcut : bitList n 32 =
      bitList (n >>> s >>> 17) (32 - s - 17) ++ bitList (n >>> s) 17 ++ bitList n s := by
    rw [← bitList_add, ← bitList_add, Nat.sub_add_cancel (by omega), Nat.sub_add_cancel (by omega)]
  rw [hcut, extendedBits]
  congr 2
  · -- above the value there is its sign
    refine bitList_eq_replicate fun i hi => ?_
    rw [Nat.testBit_shiftRight, Nat.testBit_shiftRight, hbit _ (by omega),
      decide_eq_true (by omega), Bool.true_and, Nat.min_eq_right (by omega)]
  · refine bitList_congr fun i hi => ?_
    rw [Nat.testBit_shiftRight, hbit _ (by omega), decide_eq_true (by omega), Bool.true_and,
      Nat.add_sub_cancel_left, Nat.min_eq_left (by omega)]
  · refine bitList_eq_replicate fun i hi => ?_
    rw [hbit _ (by omega), decide_eq_false (by omega), Bool.false_and]

theorem toNat_unpack (p : Packed) (hs : p.shift.toNat < 32) :
    (p.unpack.toNat : Int) =
      (BitVec.ofNat 17 p.value.toNat).toInt * 2 ^ p.shift.toNat % 2 ^ 32 := by
  have hsigned : (BitVec.ofNat 17 p.value.toNat).toInt = p.signed :=
    congrArg BitVec.toInt (BitVec.ofNat_toNat 17 p.value.toBitVec)
  rw [hsigned, unpack_eq p hs]
  exact toNat_ofInt _

/-- Sign extension is a shift to the top of the word and an arithmetic shift back. -/
theorem signExtend_packed_eq (x : UInt32) :
    (x.toBitVec.setWidth packedBits).signExtend 32 = (x.toBitVec <<< 15).sshiftRight 15 := by
  apply BitVec.eq_of_getLsbD_eq
  intro i hi
  rw [getLsbD_signExtend_packed x hi, BitVec.getLsbD_sshiftRight, decide_eq_false (by omega),
    Bool.not_false, Bool.true_and]
  by_cases hlow : i < 17
  · rw [if_pos (by omega), BitVec.getLsbD_shiftLeft, decide_eq_true (by omega),
      decide_eq_false (by omega), Nat.add_sub_cancel_left, Nat.min_eq_left (by omega)]
    rfl
  · rw [if_neg (by omega), BitVec.msb_shiftLeft, Nat.min_eq_right (by omega)]
    rfl

theorem unpack_eq_shifts (p : Packed) :
    p.unpack = ((p.value <<< 15).toInt32 >>> 15).toUInt32 <<< p.shift.toUInt32 := by
  rw [unpack, signExtend_packed_eq]
  rfl

/-- Only the lowest seventeen bits of the value count. -/
theorem unpack_congr {p q : Packed} (hvalue : q.value.toNat % 2 ^ 17 = p.value.toNat % 2 ^ 17)
    (hshift : q.shift = p.shift) : q.unpack = p.unpack := by
  have hlow : q.value.toBitVec.setWidth packedBits = p.value.toBitVec.setWidth packedBits := by
    apply BitVec.eq_of_toNat_eq
    rw [BitVec.toNat_setWidth, BitVec.toNat_setWidth]
    exact hvalue
  rw [unpack, unpack, hlow, hshift]

/-- **Unpacking.**  A packed constant whose shift is less than a word loads its value times a power
of two modulo `2 ^ 32`.  The value is the number that its lowest seventeen bits spell in two's
complement, and the bits above them do not count.  The same word comes from a shift left by fifteen
bits, an arithmetic shift back and the shift left.  With a shift of at most fifteen, its bits are
those of the value, extended by the sign to what the shift leaves of a word, and then a zero for
each place of the shift. -/
theorem unpack_exact (p : Packed) (hs : p.shift.toNat ≤ 31) :
    (p.unpack.toNat : Int) =
      (BitVec.ofNat 17 p.value.toNat).toInt * 2 ^ p.shift.toNat % 2 ^ 32 ∧
    (∀ value : UInt32, value.toNat % 2 ^ 17 = p.value.toNat % 2 ^ 17 →
      unpack ⟨value, p.shift⟩ = p.unpack) ∧
    p.unpack = ((p.value <<< 15).toInt32 >>> 15).toUInt32 <<< p.shift.toUInt32 ∧
    (p.shift.toNat ≤ 15 →
      bitList p.unpack.toNat 32 =
        extendedBits p.value.toNat 17 (32 - p.shift.toNat) ++
          List.replicate p.shift.toNat false) := by
  refine ⟨p.toNat_unpack (Nat.lt_succ_of_le hs), fun value hvalue => ?_, p.unpack_eq_shifts,
    fun hshort => ?_⟩
  · exact unpack_congr hvalue rfl
  · exact bitList_unpack hshort

/-- A negative value with bits above the seventeen, and the greatest shift, which leaves one bit of
the value. -/
theorem unpack_exact_negative :
    unpack ⟨0xFFFD8001, 4⟩ = 0xFFF80010 ∧
    (0xFFF80010 : Int) = -0x7FFF * 2 ^ 4 % 2 ^ 32 ∧
    unpack ⟨0x18001, 4⟩ = 0xFFF80010 ∧
    bitList 0xFFF80010 32 = extendedBits 0xFFFD8001 17 28 ++ List.replicate 4 false ∧
    unpack ⟨3, 31⟩ = 0x80000000 ∧ (0x80000000 : Int) = 3 * 2 ^ 31 % 2 ^ 32 := by
  obtain ⟨hnumber, hlow, hshifts, hbits⟩ := unpack_exact ⟨0xFFFD8001, 4⟩ (by decide)
  obtain ⟨hnumber', -, hshifts', -⟩ := unpack_exact ⟨3, 31⟩ (by decide)
  have hword : unpack ⟨0xFFFD8001, 4⟩ = 0xFFF80010 := hshifts.trans (by decide)
  have hword' : unpack ⟨3, 31⟩ = 0x80000000 := hshifts'.trans (by decide)
  rw [hword] at hnumber hlow hbits
  rw [hword'] at hnumber'
  exact ⟨hword, hnumber, hlow 0x18001 (by decide), hbits (by decide), hword', hnumber'⟩

end Packed

end Asm32
