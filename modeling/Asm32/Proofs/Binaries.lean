import Mathlib
import Asm32.Image
import Asm32.Listing

/-!
# Binaries and their images

A binary is nothing but the bytes of its words, so it can be cut into words again when its length is
a multiple of four, and in one way only: four bytes and the word that they make determine each other
(`Image.wordOfBytes_wordToBytes`, `Image.wordToBytes_wordOfBytes`).  The addresses are not in the
binary.  They are counted up from the base, word by word, and wrap around (`Image.laidOut`).

**Binaries** (`Image.ofBinary_eq_ok_iff`, `Image.ofBinary_exact`).  Which bytes load to which image.
Writing the words of an image gives the bytes that it was loaded from, and loading what was written
gives the words.
-/

namespace Asm32

theorem binary_eq (items : List Item) :
    binary items = (items.map Item.opcode).flatMap wordToBytes := by
  rw [List.flatMap_map]
  rfl

namespace Image

/-! ### The bytes of a word -/

/-- A byte that is put above the bits of a word adds its multiple of a power of two. -/
theorem toNat_or_shiftLeft {w i : UInt32} (b : UInt8) (hi : i.toNat ≤ 24)
    (hw : w.toNat < 2 ^ i.toNat) :
    (w ||| b.toUInt32 <<< i).toNat = w.toNat + 2 ^ i.toNat * b.toNat := by
  have hb := b.toNat_lt
  have hlt : b.toNat <<< i.toNat < 2 ^ 32 := by
    rw [Nat.shiftLeft_eq]
    calc b.toNat * 2 ^ i.toNat
        < 2 ^ 8 * 2 ^ i.toNat := Nat.mul_lt_mul_of_pos_right hb (Nat.two_pow_pos _)
      _ ≤ 2 ^ 8 * 2 ^ 24 := Nat.mul_le_mul_left _ (Nat.pow_le_pow_right (by decide) hi)
  have hmod : i.toNat % 32 = i.toNat := Nat.mod_eq_of_lt (by omega)
  rw [UInt32.toNat_or, UInt32.toNat_shiftLeft, UInt8.toNat_toUInt32, hmod,
    Nat.mod_eq_of_lt hlt, Nat.or_comm, ← Nat.shiftLeft_add_eq_or_of_lt hw, Nat.shiftLeft_eq,
    Nat.add_comm, Nat.mul_comm]

theorem toNat_wordOfBytes (a b c d : UInt8) :
    (wordOfBytes a b c d).toNat =
      a.toNat + 2 ^ 8 * b.toNat + 2 ^ 16 * c.toNat + 2 ^ 24 * d.toNat := by
  have ha := a.toNat_lt
  have hb := b.toNat_lt
  have hc := c.toNat_lt
  have h₀ : a.toUInt32.toNat = a.toNat := UInt8.toNat_toUInt32 a
  have h₁ : (a.toUInt32 ||| b.toUInt32 <<< 8).toNat = a.toNat + 2 ^ 8 * b.toNat := by
    rw [toNat_or_shiftLeft b (by decide) (by rw [h₀]; exact ha), h₀]
    rfl
  have h₂ : (a.toUInt32 ||| b.toUInt32 <<< 8 ||| c.toUInt32 <<< 16).toNat =
      a.toNat + 2 ^ 8 * b.toNat + 2 ^ 16 * c.toNat := by
    have hlt : a.toNat + 2 ^ 8 * b.toNat < 2 ^ 16 := by omega
    rw [toNat_or_shiftLeft c (by decide) (by rw [h₁]; exact hlt), h₁]
    rfl
  have hlt : a.toNat + 2 ^ 8 * b.toNat + 2 ^ 16 * c.toNat < 2 ^ 24 := by omega
  rw [wordOfBytes, toNat_or_shiftLeft d (by decide) (by rw [h₂]; exact hlt), h₂]
  rfl

/-- The bytes of a word are its digits in base 256. -/
theorem map_toNat_wordToBytes (w : UInt32) :
    (wordToBytes w).map UInt8.toNat =
      [w.toNat % 2 ^ 8, w.toNat / 2 ^ 8 % 2 ^ 8, w.toNat / 2 ^ 16 % 2 ^ 8,
        w.toNat / 2 ^ 24 % 2 ^ 8] := by
  have hbyte : ∀ i : UInt32, i.toNat ≤ 24 →
      (w >>> i).toUInt8.toNat = w.toNat / 2 ^ i.toNat % 2 ^ 8 := by
    intro i hi
    have hmod : i.toNat % 32 = i.toNat := Nat.mod_eq_of_lt (by omega)
    rw [UInt32.toNat_toUInt8, UInt32.toNat_shiftRight, hmod, Nat.shiftRight_eq_div_pow]
  simp only [wordToBytes, List.map_cons, List.map_nil, UInt32.toNat_toUInt8,
    hbyte 8 (by decide), hbyte 16 (by decide), hbyte 24 (by decide)]
  rfl

theorem wordOfBytes_wordToBytes (w : UInt32) :
    wordOfBytes w.toUInt8 (w >>> 8).toUInt8 (w >>> 16).toUInt8 (w >>> 24).toUInt8 = w := by
  have hw := w.toNat_lt
  have hbytes := map_toNat_wordToBytes w
  simp only [wordToBytes, List.map_cons, List.map_nil, List.cons.injEq, and_true] at hbytes
  obtain ⟨h₀, h₁, h₂, h₃⟩ := hbytes
  apply UInt32.toNat_inj.mp
  rw [toNat_wordOfBytes, h₀, h₁, h₂, h₃]
  omega

theorem wordToBytes_wordOfBytes (a b c d : UInt8) :
    wordToBytes (wordOfBytes a b c d) = [a, b, c, d] := by
  have ha := a.toNat_lt
  have hb := b.toNat_lt
  have hc := c.toNat_lt
  have hd := d.toNat_lt
  apply List.map_injective_iff.mpr (fun _ _ => UInt8.toNat_inj.mp)
  rw [map_toNat_wordToBytes, toNat_wordOfBytes]
  simp only [List.map_cons, List.map_nil, List.cons.injEq, and_true]
  omega

/-! ### The words of a binary -/

/-- Words one after the other, from a base address on. -/
def laidOut (base : UInt32) (raws : List UInt32) : List Word :=
  raws.mapIdx fun i raw => ⟨base + UInt32.ofNat (4 * i), raw⟩

theorem laidOut_cons (base raw : UInt32) (raws : List UInt32) :
    laidOut base (raw :: raws) = ⟨base, raw⟩ :: laidOut (base + 4) raws := by
  have hnext : ∀ i, base + UInt32.ofNat (4 * (i + 1)) = base + 4 + UInt32.ofNat (4 * i) := by
    intro i
    rw [Nat.mul_succ, UInt32.ofNat_add, UInt32.add_comm (UInt32.ofNat (4 * i)), ← UInt32.add_assoc]
    rfl
  rw [laidOut, List.mapIdx_cons]
  simp only [hnext]
  simp [laidOut]

theorem map_raw_laidOut (base : UInt32) (raws : List UInt32) :
    (laidOut base raws).map Word.raw = raws := by
  apply List.ext_getElem?
  intro i
  rw [laidOut, List.getElem?_map, List.getElem?_mapIdx, Option.map_map]
  exact Option.map_id'

theorem address_of_laidOut {base : UInt32} {raws : List UInt32} {i : Nat} {w : Word}
    (h : (laidOut base raws)[i]? = some w) : w.address = base + UInt32.ofNat (4 * i) := by
  rw [laidOut, List.getElem?_mapIdx] at h
  obtain ⟨raw, -, rfl⟩ := Option.map_eq_some_iff.mp h
  rfl

theorem length_flatMap_wordToBytes (raws : List UInt32) :
    (raws.flatMap wordToBytes).length = 4 * raws.length := by
  induction raws with
  | nil => rfl
  | cons raw raws ih =>
      rw [List.flatMap_cons, List.length_append, ih, List.length_cons, Nat.mul_succ, Nat.add_comm]
      rfl

theorem wordsFrom_flatMap (base : UInt32) (raws : List UInt32) :
    wordsFrom base (raws.flatMap wordToBytes) = laidOut base raws := by
  induction raws generalizing base with
  | nil => rfl
  | cons raw raws ih =>
      rw [laidOut_cons, ← ih, List.flatMap_cons]
      show (⟨base, wordOfBytes _ _ _ _⟩ : Word) :: wordsFrom (base + 4) (raws.flatMap wordToBytes) =
        _
      rw [wordOfBytes_wordToBytes]

/-- A binary of whole words has the bytes of its words. -/
theorem flatMap_wordsFrom (base : UInt32) {bytes : List UInt8} (h : 4 ∣ bytes.length) :
    ((wordsFrom base bytes).map Word.raw).flatMap wordToBytes = bytes := by
  fun_induction wordsFrom base bytes with
  | case1 base a b c d rest ih =>
      have hrest : 4 ∣ rest.length := by
        simp only [List.length_cons] at h
        omega
      rw [List.map_cons, List.flatMap_cons, wordToBytes_wordOfBytes, ih hrest]
      rfl
  | case2 bytes base hshort =>
      -- less than a word is left, and so nothing
      rcases bytes with _ | ⟨a, _ | ⟨b, _ | ⟨c, _ | ⟨d, rest⟩⟩⟩⟩
      · rfl
      · simp at h
      · simp at h
      · simp at h
      · exact absurd rfl (hshort a b c d rest)

/-- **Binaries.**  A binary loads to words that are laid out from the base, and their bytes are the
binary. -/
theorem ofBinary_eq_ok_iff {bytes : List UInt8} {base : UInt32} {img : Image} :
    ofBinary bytes base = .ok img ↔
      ∃ raws, bytes = raws.flatMap wordToBytes ∧ img.words = laidOut base raws := by
  obtain ⟨words⟩ := img
  rw [ofBinary]
  constructor
  · intro h
    split at h
    · rename_i hlength
      cases h
      have hbytes := flatMap_wordsFrom base (Nat.dvd_of_mod_eq_zero hlength)
      exact ⟨_, hbytes.symm, by rw [← wordsFrom_flatMap, hbytes]⟩
    · cases h
  · rintro ⟨raws, rfl, rfl⟩
    rw [if_pos (by rw [length_flatMap_wordToBytes, Nat.mul_mod_right]), wordsFrom_flatMap]

/-- **Both directions.**  A binary loads exactly when its length is a multiple of four.  Then the
word with the number `i` lies at the base and `4 * i` more, and items with the words of the image as
their opcodes, in order, are written as that binary.  The binary of any items loads, and the words
of its image are their opcodes, one for each item. -/
theorem ofBinary_exact (bytes : List UInt8) (base : UInt32) :
    ((∃ img, ofBinary bytes base = .ok img) ↔ 4 ∣ bytes.length) ∧
    (∀ img, ofBinary bytes base = .ok img →
      (∀ items : List Item, items.map Item.opcode = img.words.map Word.raw →
        binary items = bytes) ∧
      ∀ i w, img.words[i]? = some w → w.address = base + UInt32.ofNat (4 * i)) ∧
    ∀ items : List Item, ∃ img, ofBinary (binary items) base = .ok img ∧
      img.words.map Word.raw = items.map Item.opcode := by
  refine ⟨⟨?_, fun h => ?_⟩, fun img h => ?_, fun items => ?_⟩
  · rintro ⟨img, h⟩
    obtain ⟨raws, rfl, -⟩ := ofBinary_eq_ok_iff.mp h
    rw [length_flatMap_wordToBytes]
    exact Nat.dvd_mul_right 4 raws.length
  · exact ⟨⟨laidOut base _⟩, ofBinary_eq_ok_iff.mpr ⟨_, (flatMap_wordsFrom base h).symm, rfl⟩⟩
  · obtain ⟨raws, rfl, hwords⟩ := ofBinary_eq_ok_iff.mp h
    refine ⟨fun items hitems => ?_, fun i w hw => address_of_laidOut (by rw [← hwords, hw])⟩
    rw [binary_eq, hitems, hwords, map_raw_laidOut]
  · refine ⟨⟨laidOut base (items.map Item.opcode)⟩, ?_, map_raw_laidOut base _⟩
    exact ofBinary_eq_ok_iff.mpr ⟨_, binary_eq items, rfl⟩

/-- Two words whose bytes all differ; the second lies behind the end of the addresses. -/
theorem ofBinary_exact_wrapping :
    ofBinary [0x02, 0x03, 0x04, 0x05, 0xF1, 0xF2, 0xF3, 0xF4] 0xFFFFFFFC =
      .ok ⟨[⟨0xFFFFFFFC, 0x05040302⟩, ⟨0, 0xF4F3F2F1⟩]⟩ ∧
    binary [⟨7, 0x100, 0x05040302, "first"⟩, ⟨7, 0x100, 0xF4F3F2F1, "second"⟩] =
      [0x02, 0x03, 0x04, 0x05, 0xF1, 0xF2, 0xF3, 0xF4] ∧
    (0 : UInt32) = 0xFFFFFFFC + UInt32.ofNat (4 * 1) := by
  have h : ofBinary [0x02, 0x03, 0x04, 0x05, 0xF1, 0xF2, 0xF3, 0xF4] 0xFFFFFFFC =
      .ok ⟨[⟨0xFFFFFFFC, 0x05040302⟩, ⟨0, 0xF4F3F2F1⟩]⟩ := rfl
  obtain ⟨-, himage, -⟩ :=
    ofBinary_exact [0x02, 0x03, 0x04, 0x05, 0xF1, 0xF2, 0xF3, 0xF4] 0xFFFFFFFC
  obtain ⟨hitems, haddress⟩ := himage _ h
  exact ⟨h, hitems _ rfl, haddress 1 ⟨0, 0xF4F3F2F1⟩ rfl⟩

end Image

end Asm32
