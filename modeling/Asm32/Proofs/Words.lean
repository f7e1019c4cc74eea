import Mathlib
import Asm32.Group

/-!
# Words and their fields

Writing fields and reading bits are two sides of one relation.  `Reads raw s fs` says that the word
`raw` holds the fields `fs` from position `s` on, up to its last bit: each field fits its width and
is what `bitsAt` reads at its place.

Writing fields after some first bits gives the word `raw` exactly when `raw` starts with these bits
and holds the fields after them (`Bits.word_eq_iff`).  After a group, these bits are its code
(`Group.written_iff_reads`), and an encoder and a decoder have to be compared on bits at positions
only.
-/

namespace Asm32

namespace Field

/-- The number of bits that a field takes. -/
def width : Field → Nat
  | number _ w => w
  | register _ => registerBits
  | zeros w    => w
  | ones w     => w

/-- The number that the bits of a field spell. -/
def value : Field → Nat
  | number v _ => v
  | register r => r.code
  | zeros _    => 0
  | ones w     => 1 <<< w - 1

/-- A number must be narrower than a word and fit its width; the other fields always do. -/
def Fits : Field → Prop
  | number v w => w < wordBits ∧ v < 1 <<< w
  | _          => True

theorem value_lt {f : Field} (h : f.Fits) : f.value < 1 <<< f.width := by
  cases f with
  | number v w => exact h.2
  | register r => exact r.code_lt
  | zeros w => exact Bits.zero_lt_shift w
  | ones w => exact Nat.sub_lt (Bits.zero_lt_shift w) Nat.one_pos

end Field

/-- The word holds the fields from a position on, up to its last bit. -/
def Reads (raw : UInt32) (start : Nat) : List Field → Prop
  | []      => start = wordBits
  | f :: fs => f.Fits ∧ bitsAt raw start f.width = f.value ∧ Reads raw (start + f.width) fs

theorem Reads.start_le {raw : UInt32} {fs : List Field} :
    ∀ {start : Nat}, Reads raw start fs → start ≤ wordBits := by
  induction fs with
  | nil => exact fun h => Nat.le_of_eq h
  | cons f fs ih => exact fun h => Nat.le_trans (Nat.le_add_right _ _) (ih h.2.2)

namespace Bits

/-- The bits are the first ones of a word. -/
def Starts (b : Bits) (raw : UInt32) : Prop := b.value = raw.toNat >>> (wordBits - b.width)

theorem write_of_fits (b : Bits) {f : Field} (h : f.Fits) :
    b.write f = .ok (b.append f.value f.width (Field.value_lt h)) := by
  cases f with
  | number v w => exact dif_pos h
  | register r => rfl
  | zeros w => rfl
  | ones w => rfl

theorem fits_of_write {b b' : Bits} {f : Field} (h : b.write f = .ok b') : f.Fits := by
  cases f with
  | number v w =>
      rw [write] at h
      split at h
      · assumption
      · cases h
  | register r => trivial
  | zeros w => trivial
  | ones w => trivial

/-- Bits with a number after them start a word exactly when the bits do and the number is read
after them. -/
theorem starts_append_iff {b : Bits} {raw : UInt32} {v w : Nat} (h : v < 1 <<< w)
    (hw : b.width + w ≤ wordBits) :
    (b.append v w h).Starts raw ↔ b.Starts raw ∧ bitsAt raw b.width w = v := by
  have hshift : raw.toNat >>> (wordBits - b.width) =
      (raw.toNat >>> (wordBits - (b.width + w))) / 2 ^ w := by
    rw [← Nat.shiftRight_eq_div_pow, ← Nat.shiftRight_add]
    congr 1
    omega
  have hv : v < 2 ^ w := by rwa [Nat.one_shiftLeft] at h
  rw [Starts, Starts, bitsAt, hshift, width_append, value_append, Nat.shiftLeft_eq,
    Nat.one_shiftLeft]
  generalize raw.toNat >>> (wordBits - (b.width + w)) = y
  constructor
  · rintro rfl
    have hp : 0 < 2 ^ w := Nat.two_pow_pos w
    constructor
    · rw [Nat.add_comm, Nat.add_mul_div_right _ _ hp, Nat.div_eq_of_lt hv, Nat.zero_add]
    · rw [Nat.add_comm, Nat.add_mul_mod_self_right, Nat.mod_eq_of_lt hv]
  · rintro ⟨hb, rfl⟩
    rw [hb, Nat.div_add_mod']

theorem finish_eq_ok_iff {b : Bits} {raw : UInt32} :
    b.finish = .ok raw ↔ b.Starts raw ∧ b.width = wordBits := by
  by_cases hw : b.width = wordBits
  · have hlt : b.value < UInt32.size := by
      have := b.value_lt
      rwa [hw] at this
    rw [finish, if_pos hw, Starts, hw, Nat.sub_self, Nat.shiftRight_zero]
    refine ⟨fun h => ?_, ?_⟩
    · obtain rfl := Except.ok.inj h
      exact ⟨(UInt32.toNat_ofNat_of_lt hlt).symm, rfl⟩
    · rintro ⟨h, -⟩
      rw [h, UInt32.ofNat_toNat]
  · rw [finish, if_neg hw]
    refine ⟨fun h => ?_, ?_⟩
    · cases h
    · rintro ⟨-, h⟩
      exact absurd h hw

/-- Fields that fit can be written, and each adds its width. -/
theorem exists_writeAll {fs : List Field} : ∀ (b : Bits), (∀ f ∈ fs, f.Fits) →
    ∃ b', b.writeAll fs = .ok b' ∧ b'.width = b.width + (fs.map Field.width).sum := by
  induction fs with
  | nil => exact fun b _ => ⟨b, rfl, rfl⟩
  | cons f fs ih =>
      intro b hfits
      obtain ⟨hf, hfs⟩ := List.forall_mem_cons.mp hfits
      obtain ⟨b', hb, hw⟩ := ih (b.append f.value f.width (Field.value_lt hf)) hfs
      refine ⟨b', ?_, ?_⟩
      · rw [writeAll, write_of_fits b hf]
        exact hb
      · rw [hw, width_append, List.map_cons, List.sum_cons, Nat.add_assoc]

/-- Fields that fit, and that fill the word together, make a word. -/
theorem exists_word {fs : List Field} {b : Bits} (hfits : ∀ f ∈ fs, f.Fits)
    (hw : b.width + (fs.map Field.width).sum = wordBits) :
    ∃ raw, (b.writeAll fs).bind finish = .ok raw := by
  obtain ⟨b', hb, hwidth⟩ := exists_writeAll b hfits
  rw [hb]
  exact ⟨_, if_pos (hwidth.trans hw)⟩

/-- **Writing against reading.**  Fields written after the bits `b` give the word `raw` exactly when
`raw` starts with `b` and holds the fields after it. -/
theorem word_eq_iff {raw : UInt32} {fs : List Field} :
    ∀ {b : Bits}, (b.writeAll fs).bind finish = .ok raw ↔ b.Starts raw ∧ Reads raw b.width fs := by
  induction fs with
  | nil => exact finish_eq_ok_iff
  | cons f fs ih =>
      intro b
      refine ⟨fun h => ?_, ?_⟩
      · obtain ⟨b', hb⟩ : ∃ b', b.write f = .ok b' := by
          rw [writeAll] at h
          cases hw : b.write f with
          | error e => rw [hw] at h; cases h
          | ok b' => exact ⟨b', rfl⟩
        have hf := fits_of_write hb
        rw [writeAll, write_of_fits b hf] at h
        obtain ⟨hs, hr⟩ := ih.mp h
        obtain ⟨hs, hv⟩ := (starts_append_iff _ hr.start_le).mp hs
        exact ⟨hs, hf, hv, hr⟩
      · rintro ⟨hs, hf, hv, hr⟩
        rw [writeAll, write_of_fits b hf]
        exact ih.mpr ⟨(starts_append_iff _ hr.start_le).mpr ⟨hs, hv⟩, hr⟩

theorem starts_empty (raw : UInt32) : empty.Starts raw :=
  (Nat.div_eq_of_lt raw.toNat_lt).symm.trans (Nat.shiftRight_eq_div_pow _ _).symm

end Bits

/-- Fields written after a group give the words that start with its code and hold the fields after
it. -/
theorem Group.written_iff_reads {g : Group} {fs : List Field} {raw : UInt32} :
    (g.bits.writeAll fs).bind Bits.finish = .ok raw ↔
      bitsAt raw 0 groupBits = g.code ∧ Reads raw groupBits fs := by
  rw [Bits.word_eq_iff, Group.bits, Bits.starts_append_iff _ (by decide)]
  constructor
  · rintro ⟨⟨-, hcode⟩, hreads⟩
    exact ⟨hcode, hreads⟩
  · rintro ⟨hcode, hreads⟩
    exact ⟨⟨Bits.starts_empty raw, hcode⟩, hreads⟩

end Asm32
