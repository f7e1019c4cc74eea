import Asm32.Proofs.Words

/-!
# The order of bits

The most significant bit comes first.  `bitList v w` lists the lowest `w` bits of a number in this
order, `Bits.toList` lists the bits that have been written, and `Field.toList` those that a field
adds.  Writing a field appends its bits (`Bits.toList_write`), writing fields appends the bits of
all of them (`Bits.toList_writeAll`), and a finished word has the bits that were written
(`Bits.bitList_of_finish`).

**Fields of a word** (`Group.fields_read_back`).  Fields that fit make a word after their group
exactly when they fill it, and then each of them is read back at its place.
-/

namespace Asm32

/-- The lowest `w` bits of a number, most significant first. -/
def bitList (v w : Nat) : List Bool := (List.range w).reverse.map v.testBit

@[simp] theorem length_bitList (v w : Nat) : (bitList v w).length = w := by
  rw [bitList, List.length_map, List.length_reverse, List.length_range]

theorem bitList_congr {v v' w : Nat} (h : ∀ i < w, v.testBit i = v'.testBit i) :
    bitList v w = bitList v' w :=
  List.map_congr_left fun i hi => h i (List.mem_range.mp (List.mem_reverse.mp hi))

theorem bitList_eq_replicate {v w : Nat} {b : Bool} (h : ∀ i < w, v.testBit i = b) :
    bitList v w = List.replicate w b := by
  refine List.eq_replicate_iff.mpr ⟨length_bitList v w, fun c hc => ?_⟩
  obtain ⟨i, hi, rfl⟩ := List.mem_map.mp hc
  exact h i (List.mem_range.mp (List.mem_reverse.mp hi))

/-- The bits of a number, cut above the lowest `w`. -/
theorem bitList_add (v n w : Nat) :
    bitList v (n + w) = bitList (v >>> w) n ++ bitList v w := by
  rw [Nat.add_comm, bitList, List.range_add, List.reverse_append, List.map_append,
    ← List.map_reverse, List.map_map]
  congr 1
  exact List.map_congr_left fun i _ => (Nat.testBit_shiftRight v).symm

namespace Field

/-- The bits of a field, in the order in which they are written. -/
def toList : Field → List Bool
  | number v w => bitList v w
  | register r => bitList r.code registerBits
  | zeros w    => List.replicate w false
  | ones w     => List.replicate w true

theorem toList_eq_bitList (f : Field) : f.toList = bitList f.value f.width := by
  cases f with
  | number v w => rfl
  | register r => rfl
  | zeros w => exact (bitList_eq_replicate fun i _ => Nat.zero_testBit i).symm
  | ones w =>
      refine (bitList_eq_replicate fun i hi => ?_).symm
      rw [value, Nat.one_shiftLeft, Nat.testBit_two_pow_sub_one, decide_eq_true hi]

end Field

namespace Bits

/-- The bits that have been written, in order. -/
def toList (b : Bits) : List Bool := bitList b.value b.width

@[simp] theorem length_toList (b : Bits) : b.toList.length = b.width :=
  length_bitList b.value b.width

theorem toList_append (b : Bits) {v w : Nat} (h : v < 1 <<< w) :
    (b.append v w h).toList = b.toList ++ bitList v w := by
  have hv : v < 2 ^ w := by rwa [Nat.one_shiftLeft] at h
  rw [toList, width_append, value_append, bitList_add, Nat.shiftLeft_eq, Nat.mul_comm]
  congr 1
  · -- the shift drops the number again
    rw [Nat.shiftRight_eq_div_pow, Nat.mul_add_div (Nat.two_pow_pos w), Nat.div_eq_of_lt hv,
      Nat.add_zero, toList]
  · exact bitList_congr fun i hi => by rw [Nat.testBit_two_pow_mul_add _ hv, if_pos hi]

/-- A field that is written appends its bits. -/
theorem toList_write {b b' : Bits} {f : Field} (h : b.write f = .ok b') :
    b'.toList = b.toList ++ f.toList := by
  have hf := fits_of_write h
  rw [write_of_fits b hf] at h
  obtain rfl := Except.ok.inj h
  rw [toList_append, Field.toList_eq_bitList]

/-- Fields that are written append their bits in order. -/
theorem toList_writeAll {fs : List Field} : ∀ {b b' : Bits}, b.writeAll fs = .ok b' →
    b'.toList = b.toList ++ fs.flatMap Field.toList := by
  induction fs with
  | nil =>
      intro b b' h
      obtain rfl := Except.ok.inj h
      rw [List.flatMap_nil, List.append_nil]
  | cons f fs ih =>
      intro b b' h
      rw [writeAll] at h
      cases hf : b.write f with
      | error e => rw [hf] at h; cases h
      | ok b₁ =>
          rw [hf] at h
          rw [ih h, toList_write hf, List.flatMap_cons, List.append_assoc]

theorem exists_finish_iff {b : Bits} : (∃ raw, b.finish = .ok raw) ↔ b.width = wordBits := by
  constructor
  · rintro ⟨raw, h⟩
    exact (finish_eq_ok_iff.mp h).2
  · intro h
    exact ⟨_, if_pos h⟩

/-- A finished word has the bits that were written. -/
theorem bitList_of_finish {b : Bits} {raw : UInt32} (h : b.finish = .ok raw) :
    bitList raw.toNat wordBits = b.toList := by
  obtain ⟨hstarts, hwidth⟩ := finish_eq_ok_iff.mp h
  rw [Starts, hwidth, Nat.sub_self, Nat.shiftRight_zero] at hstarts
  rw [toList, hstarts, hwidth]

end Bits

/-- A field that takes any bits is read at the end of the fields in front of it. -/
theorem Reads.bitsAt?_eq {raw : UInt32} {f : Field} {after : List Field} (before : List Field) :
    ∀ {start : Nat}, Reads raw start (before ++ f :: after) → 1 ≤ f.width →
      bitsAt? raw (start + (before.map Field.width).sum) f.width = some f.value := by
  induction before with
  | nil =>
      intro start h hw
      obtain ⟨-, hv, hrest⟩ := h
      rw [List.map_nil, List.sum_nil, Nat.add_zero, bitsAt?, if_pos ⟨hw, hrest.start_le⟩, hv]
  | cons g before ih =>
      intro start h hw
      obtain ⟨-, -, hrest⟩ := h
      rw [List.map_cons, List.sum_cons, ← Nat.add_assoc]
      exact ih hrest hw

namespace Group

theorem toList_bits (g : Group) : g.bits.toList = bitList g.code groupBits :=
  Bits.toList_append Bits.empty g.code_lt

/-- **Fields of a word.**  Fields that fit can be written after a group.  The bits written are those
of the group and then those of the fields, so that their number is five and the widths of the fields
together, and they make a word exactly when this is thirty-two.  The word has the bits in the order
in which they were written; its first five are read as the code of the group, and each field that
takes any bits is read as its value right behind the fields in front of it. -/
theorem fields_read_back (g : Group) (fs : List Field) (hfits : ∀ f ∈ fs, f.Fits) :
    ∃ b, g.bits.writeAll fs = .ok b ∧
      b.toList = bitList g.code 5 ++ fs.flatMap Field.toList ∧
      b.toList.length = 5 + (fs.map Field.width).sum ∧
      ((∃ raw, b.finish = .ok raw) ↔ 5 + (fs.map Field.width).sum = 32) ∧
      ∀ raw, b.finish = .ok raw →
        bitList raw.toNat 32 = b.toList ∧
        bitsAt? raw 0 5 = some g.code ∧
        ∀ before f after, fs = before ++ f :: after → 1 ≤ f.width →
          bitsAt? raw (5 + (before.map Field.width).sum) f.width = some f.value := by
  obtain ⟨b, hb, hwidth⟩ : ∃ b, g.bits.writeAll fs = .ok b ∧
      b.width = 5 + (fs.map Field.width).sum := Bits.exists_writeAll g.bits hfits
  refine ⟨b, hb, ?_, b.length_toList.trans hwidth, ?_, fun raw hraw => ?_⟩
  · rw [Bits.toList_writeAll hb, toList_bits, groupBits]
  · rw [← hwidth]
    exact Bits.exists_finish_iff
  · have hword : (g.bits.writeAll fs).bind Bits.finish = .ok raw := by
      rw [hb]
      exact hraw
    obtain ⟨hcode, hreads⟩ := written_iff_reads.mp hword
    refine ⟨Bits.bitList_of_finish hraw, ?_, ?_⟩
    · rw [bitsAt?, if_pos (by decide)]
      exact congrArg some hcode
    · rintro before f after rfl hw
      exact hreads.bitsAt?_eq before hw

/-- A skip, field by field, with one that takes no bits; its condition lies at position 23. -/
theorem fields_read_back_skip :
    ∃ b, condFlow.bits.writeAll [.zeros 18, .number 0 0, .number 0b1001 4, .ones 5] = .ok b ∧
      b.finish = .ok 0x1800013F ∧ b.toList.length = 32 ∧
      bitsAt? 0x1800013F 0 5 = some condFlow.code ∧ bitsAt? 0x1800013F 23 4 = some 0b1001 ∧
      bitsAt? 0x1800013F 27 5 = some 31 := by
  obtain ⟨b, hb, -, hlength, -, hread⟩ :=
    fields_read_back condFlow [.zeros 18, .number 0 0, .number 0b1001 4, .ones 5] (by
      simp [Field.Fits, wordBits])
  have hraw : b.finish = .ok 0x1800013F := by
    obtain rfl := Except.ok.inj hb
    rfl
  obtain ⟨-, hgroup, hfield⟩ := hread _ hraw
  exact ⟨b, hb, hraw, hlength, hgroup, hfield [.zeros 18, .number 0 0] _ _ rfl (by decide),
    hfield [.zeros 18, .number 0 0, .number 0b1001 4] _ _ rfl (by decide)⟩

end Group

end Asm32
