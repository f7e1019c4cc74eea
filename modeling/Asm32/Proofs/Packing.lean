import Mathlib
import Asm32.Instr.Packed

/-!
# Packing a constant

A packed constant stands for a signed number of seventeen bits times a power of two
(`Packed.unpack_eq`).  Packing narrows the word of a constant bit by bit; read on integers, it
looks for a signed seventeen-bit number `v` and a shift `s` with `x = v * 2 ^ s`, where `s` is only
as large as it has to be: either it is zero, or `2 * v` would not fit (`Narrows`).

**Packing** (`Packed.pack?_eq_some_iff`).  A constant in the range of a word, signed or unsigned,
packs to `p` exactly when `p` has the size of the instruction's fields, loads the constant's word,
and has the least shift of all that do.
-/

namespace Asm32.Packed

/-! ### Narrowing an integer -/

/-- The number fits seventeen bits in two's complement. -/
def Short (v : Int) : Prop := -0x10000 ≤ v ∧ v < 0x10000

/-- The number `x` is the short number `v`, moved left by `s ≤ n` bits and no more than needed. -/
def Narrows (n : Nat) (x v : Int) (s : Nat) : Prop :=
  x = v * 2 ^ s ∧ s ≤ n ∧ Short v ∧ (s = 0 ∨ ¬ Short (2 * v))

/-- The number fits `17 + n` bits in two's complement. -/
def InRange (n : Nat) (x : Int) : Prop := -(0x10000 * 2 ^ n) ≤ x ∧ x < 0x10000 * 2 ^ n

theorem inRange_of_short {v : Int} (h : Short v) (n : Nat) : InRange n v := by
  have hp : (1 : Int) ≤ 2 ^ n := one_le_pow₀ (by decide)
  obtain ⟨h₁, h₂⟩ := h
  constructor <;> omega

theorem short_of_inRange_mul {v : Int} {n : Nat} (h : InRange n (v * 2 ^ n)) : Short v := by
  have hp : (0 : Int) < 2 ^ n := by positivity
  obtain ⟨h₁, h₂⟩ := h
  constructor
  · exact le_of_mul_le_mul_right (by linarith) hp
  · exact lt_of_mul_lt_mul_right (by linarith) hp.le

/-- A leading bit that repeats the sign takes nothing away. -/
theorem narrows_succ_of_inRange {n : Nat} {x v : Int} {s : Nat} (h : InRange n x) :
    Narrows (n + 1) x v s ↔ Narrows n x v s := by
  constructor
  · rintro ⟨rfl, hs, hv, hl⟩
    refine ⟨rfl, ?_, hv, hl⟩
    by_contra hn
    obtain rfl : s = n + 1 := by omega
    refine (hl.resolve_left (Nat.succ_ne_zero n)) (short_of_inRange_mul (n := n) ?_)
    rwa [pow_succ', ← mul_assoc, mul_comm v 2] at h
  · rintro ⟨hx, hs, hv, hl⟩
    exact ⟨hx, Nat.le_succ_of_le hs, hv, hl⟩

/-- An even number that needs all its bits is narrowed through its half. -/
theorem narrows_succ_double {n : Nat} {y v : Int} {s : Nat} (h : ¬ InRange n (2 * y)) :
    Narrows (n + 1) (2 * y) v s ↔ ∃ t, s = t + 1 ∧ Narrows n y v t := by
  constructor
  · rintro ⟨hx, hs, hv, hl⟩
    cases s with
    | zero =>
        rw [pow_zero, mul_one] at hx
        exact absurd (hx ▸ inRange_of_short hv n) h
    | succ t =>
        refine ⟨t, rfl, ?_, by omega, hv, Or.inr (hl.resolve_left (Nat.succ_ne_zero t))⟩
        rw [pow_succ] at hx
        linarith
  · rintro ⟨t, rfl, rfl, ht, hv, hl⟩
    refine ⟨by ring, by omega, hv, Or.inr ?_⟩
    rcases hl with rfl | hl
    · rw [pow_zero, mul_one] at h
      exact fun hs => h (inRange_of_short hs n)
    · exact hl

/-- An odd number that needs all its bits cannot be narrowed. -/
theorem not_narrows_succ_odd {n : Nat} {x v : Int} {s : Nat} (h : ¬ InRange n x)
    (ho : x % 2 ≠ 0) : ¬ Narrows (n + 1) x v s := by
  rintro ⟨hx, -, hv, -⟩
  cases s with
  | zero =>
      rw [pow_zero, mul_one] at hx
      exact h (hx ▸ inRange_of_short hv n)
  | succ t =>
      rw [pow_succ, ← mul_assoc] at hx
      omega

/-! ### Narrowing a word -/

/-- The low seventeen bits of the value in two's complement. -/
def signed (p : Packed) : Int := (p.value.toBitVec.setWidth packedBits).toInt

theorem signed_eq (p : Packed) : p.signed = Int.bmod p.value.toNat 0x20000 :=
  BitVec.toInt_setWidth _

/-- Value and shift have the size of their fields in the load instruction. -/
def Fits (p : Packed) : Prop := p.value.toNat < 0x20000 ∧ p.shift.toNat ≤ 15

theorem bmod_of_lt {value h : Nat} (hv : value < 2 * h) :
    Int.bmod value (2 * h) = if value < h then (value : Int) else value - 2 * h := by
  have hm : (value : Int) % (2 * h : Nat) = value := Int.emod_eq_of_lt (by omega) (by omega)
  rw [Int.bmod_def, hm]
  split <;> split <;> omega

theorem short_bmod (x : Int) : Short (Int.bmod x 0x20000) := by
  have h₁ := Int.le_bmod (x := x) (m := 0x20000) (by decide)
  have h₂ := Int.bmod_lt (x := x) (m := 0x20000) (by decide)
  constructor <;> omega

theorem bmod_injective {a b : Nat} (ha : a < 0x20000) (hb : b < 0x20000)
    (h : Int.bmod a 0x20000 = Int.bmod b 0x20000) : a = b := by
  rw [Int.bmod_def, Int.bmod_def] at h
  omega

/-- The two top bits of a number below `4 * 2 ^ k` both repeat the sign exactly when the number lies
in the first or the last quarter. -/
theorem top_bits_eq_sign_iff {k value : Nat} (hv : value < 4 * 2 ^ k) :
    (value.testBit (k + 1) = decide (2 * 2 ^ k ≤ value) ∧
      value.testBit k = decide (2 * 2 ^ k ≤ value)) ↔ value < 2 ^ k ∨ 3 * 2 ^ k ≤ value := by
  have hp : 0 < 2 ^ k := Nat.two_pow_pos k
  rw [Nat.testBit_eq_decide_div_mod_eq, Nat.testBit_eq_decide_div_mod_eq, pow_succ',
    decide_eq_decide, decide_eq_decide]
  generalize 2 ^ k = h at hv hp
  have quotient : ∀ {m q : Nat}, q * m ≤ value → value < (q + 1) * m → value / m = q :=
    fun h₁ h₂ => Nat.div_eq_of_lt_le h₁ h₂
  rcases (by omega : value < h ∨ h ≤ value ∧ value < 2 * h ∨ 2 * h ≤ value ∧ value < 3 * h ∨
    3 * h ≤ value) with hq | hq | hq | hq
  · rw [quotient (m := 2 * h) (q := 0) (by omega) (by omega),
      quotient (m := h) (q := 0) (by omega) (by omega)]
    omega
  · rw [quotient (m := 2 * h) (q := 0) (by omega) (by omega),
      quotient (m := h) (q := 1) (by omega) (by omega)]
    omega
  · rw [quotient (m := 2 * h) (q := 1) (by omega) (by omega),
      quotient (m := h) (q := 2) (by omega) (by omega)]
    omega
  · rw [quotient (m := 2 * h) (q := 1) (by omega) (by omega),
      quotient (m := h) (q := 3) (by omega) (by omega)]
    omega

/-- Dropping a top bit that repeats the sign leaves the number that the bits spell. -/
theorem bmod_drop_top {value h : Nat} (hv : value < 4 * h) (hq : value < h ∨ 3 * h ≤ value) :
    Int.bmod (value % (2 * h) : Nat) (2 * h) = Int.bmod value (2 * (2 * h)) ∧
      (h ≤ value % (2 * h) ↔ 2 * h ≤ value) := by
  have hlow : value % (2 * h) = if value < h then value else value - 2 * h := by
    split
    · exact Nat.mod_eq_of_lt (by omega)
    · rw [Nat.mod_eq_sub_mod (by omega), Nat.mod_eq_of_lt (by omega)]
  rw [bmod_of_lt (Nat.mod_lt _ (by omega)), bmod_of_lt (by omega), hlow]
  split_ifs <;> omega

/-- Dropping a low zero halves the number that the bits spell. -/
theorem bmod_drop_low {value h : Nat} (hv : value < 4 * h) (he : value % 2 = 0) :
    Int.bmod value (2 * (2 * h)) = 2 * Int.bmod (value / 2 : Nat) (2 * h) ∧
      (h ≤ value / 2 ↔ 2 * h ≤ value) := by
  have hhalf : value / 2 < 2 * h := by omega
  rw [bmod_of_lt hhalf, bmod_of_lt (by omega)]
  split_ifs <;> omega

/-- A number spelled by `18 + n` bits fits one bit less exactly when they start with twice the same
bit. -/
theorem inRange_bmod_iff {n value : Nat} (hv : value < 4 * 2 ^ (16 + n)) :
    InRange n (Int.bmod value (2 * (2 * 2 ^ (16 + n)))) ↔
      value < 2 ^ (16 + n) ∨ 3 * 2 ^ (16 + n) ≤ value := by
  have hp : (0x10000 * 2 ^ n : Int) = (2 ^ (16 + n) : Nat) := by
    rw [pow_add]
    norm_num
  rw [InRange, hp, bmod_of_lt (by omega)]
  split <;> omega

/-- Seventeen bits are packed as they are. -/
theorem narrow_zero_eq_some_iff {sign : Bool} {value shift : Nat} {p : Packed}
    (hv : value < 0x20000) (hs : shift ≤ 15) :
    narrow sign 0 value shift = some p ↔
      p.Fits ∧ ∃ s, p.shift.toNat = shift + s ∧ Narrows 0 (Int.bmod value 0x20000) p.signed s := by
  have hvalue : (UInt32.ofNat value).toNat = value :=
    UInt32.toNat_ofNat_of_lt' (Nat.lt_trans hv (by decide))
  have hshift : (UInt8.ofNat shift).toNat = shift :=
    UInt8.toNat_ofNat_of_lt' (Nat.lt_of_le_of_lt hs (by decide))
  rw [narrow, Option.some.injEq]
  constructor
  · rintro rfl
    have hsigned : signed ⟨UInt32.ofNat value, UInt8.ofNat shift⟩ = Int.bmod value 0x20000 := by
      rw [signed_eq, hvalue]
    refine ⟨⟨?_, ?_⟩, 0, hshift, ?_⟩
    · rw [hvalue]
      exact hv
    · rw [hshift]
      exact hs
    · rw [hsigned]
      exact ⟨by rw [pow_zero, mul_one], Nat.le_refl 0, short_bmod value, Or.inl rfl⟩
  · rintro ⟨hf, s, hp, hx, hs, -⟩
    obtain rfl : s = 0 := Nat.le_zero.mp hs
    rw [pow_zero, mul_one, signed_eq] at hx
    rw [bmod_injective hv hf.1 hx, ← show p.shift.toNat = shift from hp, UInt32.ofNat_toNat,
      UInt8.ofNat_toNat]

/-- Narrowing a word of `17 + n` bits finds what narrows its number. -/
theorem narrow_eq_some_iff {p : Packed} : ∀ {n value shift : Nat}, value < 2 * 2 ^ (16 + n) →
    shift + n ≤ 15 →
    (narrow (decide (2 ^ (16 + n) ≤ value)) n value shift = some p ↔
      p.Fits ∧ ∃ s, p.shift.toNat = shift + s ∧
        Narrows n (Int.bmod value (2 * 2 ^ (16 + n))) p.signed s)
  | 0, value, shift, hv, hs => narrow_zero_eq_some_iff hv hs
  | n + 1, value, shift, hv, hs => by
      have hpow : 2 ^ (16 + (n + 1)) = 2 * 2 ^ (16 + n) := pow_succ' 2 (16 + n)
      rw [hpow] at hv ⊢
      have hv4 : value < 4 * 2 ^ (16 + n) := by omega
      have htop := top_bits_eq_sign_iff hv4
      have hrange := inRange_bmod_iff hv4
      have hlow : 1 <<< (packedBits + n) = 2 * 2 ^ (16 + n) := by
        rw [Nat.one_shiftLeft, ← hpow, packedBits]
        congr 1
        omega
      rw [narrow, hlow, show packedBits + n = 16 + n + 1 by rw [packedBits]; omega,
        Nat.add_sub_cancel]
      by_cases hq : value < 2 ^ (16 + n) ∨ 3 * 2 ^ (16 + n) ≤ value
      · -- the top bit repeats the sign: it is dropped, and the number stays
        obtain ⟨hsame, hsign⟩ := bmod_drop_top hv4 hq
        rw [if_pos (htop.mpr hq), ← decide_eq_decide.mpr hsign,
          narrow_eq_some_iff (Nat.mod_lt _ (by omega)) (by omega), hsame]
        simp only [narrows_succ_of_inRange (hrange.mpr hq)]
      · rw [if_neg (mt htop.mp hq)]
        have hwide := mt hrange.mp hq
        by_cases he : value % 2 = 0
        · -- a low zero is dropped and counted in the shift
          obtain ⟨hhalf, hsign⟩ := bmod_drop_low hv4 he
          rw [if_pos he, ← decide_eq_decide.mpr hsign, narrow_eq_some_iff (by omega) (by omega)]
          rw [hhalf] at hwide ⊢
          simp only [narrows_succ_double hwide]
          constructor
          · rintro ⟨hf, s, hs, hn⟩
            exact ⟨hf, s + 1, by omega, s, rfl, hn⟩
          · rintro ⟨hf, _, hs, s, rfl, hn⟩
            exact ⟨hf, s, by omega, hn⟩
        · rw [if_neg he]
          refine ⟨fun h => ?_, ?_⟩
          · cases h
          · rintro ⟨-, s, -, hn⟩
            refine absurd hn (not_narrows_succ_odd hwide ?_)
            rw [bmod_of_lt (by omega)]
            split <;> omega

/-! ### What a packed constant loads -/

theorem toNat_ofInt (x : Int) : ((UInt32.ofInt x).toNat : Int) = x % 0x100000000 := by
  have h₀ := Int.emod_nonneg x (b := 0x100000000) (by decide)
  have h₁ := Int.emod_lt_of_pos x (b := 0x100000000) (by decide)
  rw [UInt32.ofInt, UInt32.toNat_ofNat_of_lt' (by rw [UInt32.size]; omega)]
  exact Int.toNat_of_nonneg h₀

/-- A word is the word of its number. -/
theorem ofInt_toNat (w : UInt32) : UInt32.ofInt w.toNat = w := by
  have hlt := w.toNat_lt
  apply UInt32.toNat_inj.mp
  apply Int.ofNat_inj.mp
  rw [toNat_ofInt]
  omega

/-- A packed constant loads its signed value times a power of two, as a word. -/
theorem unpack_eq (p : Packed) (h : p.shift.toNat < 32) :
    p.unpack = UInt32.ofInt (p.signed * 2 ^ p.shift.toNat) := by
  have hx : (UInt32.ofBitVec ((p.value.toBitVec.setWidth packedBits).signExtend 32)).toNat =
      (p.signed % 0x100000000).toNat :=
    BitVec.toNat_ofInt p.signed
  apply UInt32.toNat_inj.mp
  apply Int.ofNat_inj.mp
  rw [toNat_ofInt, unpack, UInt32.toNat_shiftLeft, UInt8.toNat_toUInt32, Nat.mod_eq_of_lt h, hx,
    Nat.shiftLeft_eq]
  push_cast
  rw [Int.toNat_of_nonneg (Int.emod_nonneg _ (by decide))]
  exact (Int.mod_modEq p.signed 0x100000000).mul_right _

/-- A signed word of thirty-two bits is the one that loads it, and no other number in range. -/
theorem ofInt_eq_iff {x : Int} {w : UInt32} (h : -0x80000000 ≤ x ∧ x < 0x80000000) :
    UInt32.ofInt x = w ↔ x = Int.bmod w.toNat 0x100000000 := by
  have hw := w.toNat_lt
  have hm : UInt32.ofInt x = w ↔ x % 0x100000000 = w.toNat := by
    rw [← toNat_ofInt, Int.ofNat_inj, UInt32.toNat_inj]
  rw [hm, bmod_of_lt (h := 0x80000000) (by omega)]
  split <;> omega

theorem short_signed (p : Packed) : Short p.signed := by
  rw [signed_eq]
  exact short_bmod _

/-- A short number moved left by at most fifteen bits fits a signed word. -/
theorem short_mul_pow_bounds {v : Int} {s : Nat} (hv : Short v) (hs : s ≤ 15) :
    -0x80000000 ≤ v * 2 ^ s ∧ v * 2 ^ s < 0x80000000 := by
  have hp : (0 : Int) < 2 ^ s := by positivity
  have hle : (2 : Int) ^ s ≤ 2 ^ 15 := pow_le_pow_right₀ (by decide) hs
  obtain ⟨h₁, h₂⟩ := hv
  constructor <;> nlinarith

theorem unpack_eq_iff {p : Packed} (hp : p.Fits) {w : UInt32} :
    p.unpack = w ↔ p.signed * 2 ^ p.shift.toNat = Int.bmod w.toNat 0x100000000 := by
  rw [unpack_eq p (Nat.lt_of_le_of_lt hp.2 (by decide))]
  exact ofInt_eq_iff (short_mul_pow_bounds p.short_signed hp.2)

theorem unpack_eq_unpack_iff {p q : Packed} (hp : p.Fits) (hq : q.Fits) :
    q.unpack = p.unpack ↔ q.signed * 2 ^ q.shift.toNat = p.signed * 2 ^ p.shift.toNat := by
  rw [unpack_eq_iff hq, (unpack_eq_iff hp).mp rfl]

/-! ### The least shift -/

/-- The packed form of a short number and a shift. -/
def ofShort (v : Int) (s : Nat) : Packed := ⟨UInt32.ofInt (v % 0x20000), UInt8.ofNat s⟩

section ofShort

variable {v : Int} {s : Nat} (hs : s ≤ 15)
include hs

theorem toNat_shift_ofShort : (ofShort v s).shift.toNat = s :=
  UInt8.toNat_ofNat_of_lt' (Nat.lt_of_le_of_lt hs (by decide))

theorem fits_ofShort : (ofShort v s).Fits := by
  have hn := toNat_ofInt (v % 0x20000)
  refine ⟨?_, (toNat_shift_ofShort hs).trans_le hs⟩
  change (UInt32.ofInt (v % 0x20000)).toNat < 0x20000
  omega

end ofShort

theorem signed_ofShort {v : Int} (hv : Short v) (s : Nat) : (ofShort v s).signed = v := by
  have hn : ((ofShort v s).value.toNat : Int) = v % 0x20000 % 0x100000000 :=
    toNat_ofInt (v % 0x20000)
  obtain ⟨h₁, h₂⟩ := hv
  rw [signed_eq, Int.bmod_def, hn]
  split <;> omega

/-- No packed constant with a smaller shift loads the same word. -/
def Least (p : Packed) : Prop := ∀ q : Packed, q.Fits → q.unpack = p.unpack → p.shift ≤ q.shift

/-- A shift is the least one exactly when it is zero or twice the value would not fit. -/
theorem least_iff {p : Packed} (hp : p.Fits) :
    p.Least ↔ p.shift.toNat = 0 ∨ ¬ Short (2 * p.signed) := by
  constructor
  · intro hl
    by_contra hc
    push Not at hc
    obtain ⟨h0, hv⟩ := hc
    obtain ⟨s, hs⟩ := Nat.exists_eq_succ_of_ne_zero h0
    have hle : s ≤ 15 := by have := hp.2; omega
    -- twice the value with one bit less of shift loads the same word
    have hq := fits_ofShort (v := 2 * p.signed) hle
    have hsame : (ofShort (2 * p.signed) s).unpack = p.unpack := by
      rw [unpack_eq_unpack_iff hp hq, signed_ofShort hv, toNat_shift_ofShort hle, hs, pow_succ]
      ring
    have := UInt8.le_iff_toNat_le.mp (hl _ hq hsame)
    rw [toNat_shift_ofShort hle, hs] at this
    omega
  · intro hl q hq hsame
    rw [unpack_eq_unpack_iff hp hq] at hsame
    rw [UInt8.le_iff_toNat_le]
    by_contra hlt
    obtain ⟨t, ht⟩ : ∃ t, p.shift.toNat = q.shift.toNat + t + 1 :=
      ⟨p.shift.toNat - q.shift.toNat - 1, by omega⟩
    have hv : q.signed = 2 * p.signed * 2 ^ t := by
      have hpos : (2 : Int) ^ q.shift.toNat ≠ 0 := by positivity
      apply mul_right_cancel₀ hpos
      rw [hsame, ht]
      ring
    refine hl.resolve_left (by omega) (short_of_inRange_mul (n := t) ?_)
    rw [← hv]
    exact inRange_of_short q.short_signed t

/-- Packed constants that fit and load the same word with the same shift are equal. -/
theorem eq_of_shift_eq {p q : Packed} (hp : p.Fits) (hq : q.Fits) (hsame : q.unpack = p.unpack)
    (hshift : q.shift = p.shift) : q = p := by
  have hsigned : q.signed = p.signed := by
    have hmul := (unpack_eq_unpack_iff hp hq).mp hsame
    rw [hshift] at hmul
    exact mul_right_cancel₀ (by positivity) hmul
  have hvalue : q.value = p.value := by
    rw [signed_eq, signed_eq] at hsigned
    exact UInt32.toNat_inj.mp (bmod_injective hq.1 hp.1 hsigned)
  cases p
  cases q
  rw [mk.injEq]
  exact ⟨hvalue, hshift⟩

/-- A word that can be loaded can be loaded with a least shift. -/
theorem exists_least {p : Packed} (hp : p.Fits) :
    ∃ q : Packed, q.Fits ∧ q.unpack = p.unpack ∧ q.Least := by
  obtain ⟨q, ⟨hq, hsame⟩, hmin⟩ := WellFounded.has_min (measure fun q : Packed => q.shift.toNat).wf
    {q | q.Fits ∧ q.unpack = p.unpack} ⟨p, hp, rfl⟩
  refine ⟨q, hq, hsame, fun r hr hrq => ?_⟩
  rw [UInt8.le_iff_toNat_le]
  exact Nat.le_of_not_lt (hmin r ⟨hr, hrq.trans hsame⟩)

/-- **Packing.**  A constant packs to `p` exactly when it is in the range of a word, signed or
unsigned, and `p` has the size of its fields, loads the word of the constant and has the least
shift of all that do. -/
theorem pack?_eq_some_iff {c : Int} {p : Packed} :
    pack? c = some p ↔ (-0x80000000 ≤ c ∧ c ≤ 0xFFFFFFFF) ∧ p.Fits ∧ p.unpack = UInt32.ofInt c ∧
      p.Least := by
  by_cases hc : -0x80000000 ≤ c ∧ c ≤ 0xFFFFFFFF
  · generalize hw : UInt32.ofInt c = w
    have hlt := w.toNat_lt
    have hsign : w.toNat.testBit 31 = decide (2 ^ (16 + 15) ≤ w.toNat) := by
      rw [Nat.testBit_eq_decide_div_mod_eq, decide_eq_decide]
      omega
    simp only [pack?, if_pos hc, hw, hsign]
    rw [narrow_eq_some_iff hlt (by decide), show 2 * 2 ^ (16 + 15) = 0x100000000 by decide]
    constructor
    · rintro ⟨hp, s, hs, hx, -, -, hl⟩
      rw [Nat.zero_add] at hs
      rw [← hs] at hx hl
      exact ⟨hc, hp, (unpack_eq_iff hp).mpr hx.symm, (least_iff hp).mpr hl⟩
    · rintro ⟨-, hp, hx, hl⟩
      exact ⟨hp, p.shift.toNat, (Nat.zero_add _).symm, ((unpack_eq_iff hp).mp hx).symm, hp.2,
        p.short_signed, (least_iff hp).mp hl⟩
  · rw [pack?, if_neg hc]
    refine ⟨fun h => ?_, ?_⟩
    · cases h
    · rintro ⟨h, -⟩
      exact absurd h hc

/-- A packed constant of the size of its fields is packed again from the word that it loads exactly
when its shift is the least. -/
theorem pack?_unpack_eq_some_iff {p : Packed} (hp : p.Fits) :
    pack? p.unpack.toNat = some p ↔ p.Least := by
  have hlt := p.unpack.toNat_lt
  rw [pack?_eq_some_iff, ofInt_toNat]
  exact ⟨fun h => h.2.2.2, fun h => ⟨by omega, hp, rfl, h⟩⟩

end Asm32.Packed
