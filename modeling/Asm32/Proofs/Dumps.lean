import Asm32.Disassembly
import Asm32.Proofs.Binaries
import Asm32.Proofs.Spelling

/-!
# Dumps and their ranges

A dump shows the words of an image one to a line, and with a range those words alone that lie in it.
A range has its first address in it and its last one not, so two ranges that meet have no address in
common and leave none out between them (`AddressRange.contains_below`,
`AddressRange.contains_above`).

That the dumps of such ranges follow on each other takes more: the words must come in the order of
their addresses (`Image.Ascending`).  The words of a binary do so when it lies below the end of the
address space (`Image.ascending_laidOut`); beyond that end, addresses start again from zero.

**Ranges** (`Image.render_ranges`).  The dump of a range is put together from the dumps of its
parts, and the dump of the range that a binary takes up is the dump of the whole.
-/

namespace Asm32

/-! ### Ranges of addresses -/

namespace AddressRange

variable {first mid last : UInt32}

theorem contains_iff {a : UInt32} :
    contains ⟨first, last⟩ a = true ↔ first.toNat ≤ a.toNat ∧ a.toNat < last.toNat := by
  simp [contains, UInt32.le_iff_toNat_le, UInt32.lt_iff_toNat_lt]

theorem contains_below (h : mid ≤ last) (a : UInt32) :
    (contains ⟨first, last⟩ a && decide (a.toNat < mid.toNat)) = contains ⟨first, mid⟩ a := by
  rw [UInt32.le_iff_toNat_le] at h
  rw [Bool.eq_iff_iff, Bool.and_eq_true, contains_iff, contains_iff, decide_eq_true_iff]
  omega

theorem contains_above (h : first ≤ mid) (a : UInt32) :
    (contains ⟨first, last⟩ a && decide (mid.toNat ≤ a.toNat)) = contains ⟨mid, last⟩ a := by
  rw [UInt32.le_iff_toNat_le] at h
  rw [Bool.eq_iff_iff, Bool.and_eq_true, contains_iff, contains_iff, decide_eq_true_iff]
  omega

end AddressRange

/-! ### Lines -/

namespace Word

theorem isLine_text (w : Word) : Text.IsLine w.text.toList := by
  rw [text]
  cases h : Instr.decode? w.raw with
  | some i => exact Instr.isLine_text (Instr.decode?_eq_some_iff.mp h).1
  | none =>
      have hword : Text.IsWord (Numeral.padded 8 16 w.raw.toNat) :=
        Text.isWord_padded (by decide) (by decide) 8 _
      have hline : Text.IsLine (Numeral.padded 8 16 w.raw.toNat) :=
        ⟨hword.ne_nil, hword.not_mem rfl, hword.not_mem rfl⟩
      simp only [Numeral.hexColumn, String.toList_append, String.toList_ofList]
      exact hline.append (by decide) (by decide)

/-- A word takes one line, be it an instruction or data. -/
theorem exists_line (showBytes : Bool) (w : Word) :
    ∃ l, w.line showBytes = l ++ "\n" ∧ Text.IsLine l.toList := by
  have hcolumn : ∀ n d, Text.isPlain d = false → d ∉ Numeral.padded 8 16 n := fun n d =>
    (Text.isWord_padded (by decide) (by decide) 8 n).not_mem
  refine ⟨_, rfl, ?_⟩
  rw [String.toList_append]
  refine w.isLine_text.append ?_ ?_
  · cases showBytes <;> simp [Numeral.hexColumn, hcolumn _ '\n' rfl]
  · cases showBytes <;> simp [Numeral.hexColumn, hcolumn _ '\r' rfl]

end Word

namespace Image

/-- A dump has the lines of its words, each with its end, and nothing else. -/
theorem render_eq_join (img : Image) (range : Option AddressRange) (showBytes : Bool) :
    (Text.lines (img.render range showBytes)).map (· ++ "\n") =
        (img.wordsIn range).map (Word.line showBytes) ∧
      img.render range showBytes =
        String.join ((Text.lines (img.render range showBytes)).map (· ++ "\n")) := by
  choose shown hline hshown using Word.exists_line showBytes
  have hmap : (img.wordsIn range).map (Word.line showBytes) =
      ((img.wordsIn range).map shown).map (· ++ "\n") := by
    rw [List.map_map]
    exact List.map_congr_left fun w _ => hline w
  have hlines : Text.lines (img.render range showBytes) = (img.wordsIn range).map shown := by
    rw [render, hmap]
    refine Text.lines_join fun l hl => ?_
    obtain ⟨w, -, rfl⟩ := List.mem_map.mp hl
    exact ⟨(hshown w).not_feed, fun h => (hshown w).not_return (List.mem_of_getLast? h)⟩
  rw [hlines, ← hmap]
  exact ⟨rfl, rfl⟩

/-! ### Words in order -/

/-- The words come in the order of their addresses. -/
def Ascending (img : Image) : Prop :=
  img.words.Pairwise fun v w => v.address.toNat < w.address.toNat

/-- The words in front of an address, and then those from it on, are all words. -/
theorem Ascending.filter_append_filter {img : Image} (h : img.Ascending) (mid : UInt32) :
    img.words.filter (fun w => decide (w.address.toNat < mid.toNat)) ++
      img.words.filter (fun w => decide (mid.toNat ≤ w.address.toNat)) = img.words := by
  obtain ⟨words⟩ := img
  rw [Ascending] at h
  dsimp only at h ⊢
  induction words with
  | nil => rfl
  | cons w words ih =>
      obtain ⟨hw, hwords⟩ := List.pairwise_cons.mp h
      by_cases hmid : w.address.toNat < mid.toNat
      · rw [List.filter_cons_of_pos (by simpa using hmid),
          List.filter_cons_of_neg (by simpa using hmid), List.cons_append, ih hwords]
      · -- the addresses behind `w` are higher, so none of them is in front of `mid`
        have habove : ∀ v ∈ words, mid.toNat ≤ v.address.toNat := fun v hv =>
          Nat.le_of_lt (Nat.lt_of_le_of_lt (Nat.not_lt.mp hmid) (hw v hv))
        rw [List.filter_cons_of_neg (by simpa using hmid),
          List.filter_cons_of_pos (by simpa using hmid),
          List.filter_eq_nil_iff.mpr (by simpa using habove),
          List.filter_eq_self.mpr (by simpa using habove), List.nil_append]

theorem Ascending.wordsIn_append {img : Image} (h : img.Ascending) {first mid last : UInt32}
    (hfirst : first ≤ mid) (hlast : mid ≤ last) :
    img.wordsIn (some ⟨first, last⟩) =
      img.wordsIn (some ⟨first, mid⟩) ++ img.wordsIn (some ⟨mid, last⟩) := by
  rw [wordsIn, wordsIn, wordsIn]
  conv_lhs => rw [← h.filter_append_filter mid]
  simp only [List.filter_append, List.filter_filter, AddressRange.contains_below hlast,
    AddressRange.contains_above hfirst]

/-- **Parts.**  When the words come in order, the dumps of two ranges that meet follow on each
other. -/
theorem Ascending.render_append {img : Image} (h : img.Ascending) {first mid last : UInt32}
    (hfirst : first ≤ mid) (hlast : mid ≤ last) (showBytes : Bool) :
    img.render (some ⟨first, last⟩) showBytes =
      img.render (some ⟨first, mid⟩) showBytes ++ img.render (some ⟨mid, last⟩) showBytes := by
  rw [render, render, render, h.wordsIn_append hfirst hlast, List.map_append, String.join_append]

/-! ### Words of a binary -/

variable {base : UInt32} {raws : List UInt32}

/-- Below the end of the address space, addresses do not wrap around. -/
theorem toNat_address_of_laidOut (h : base.toNat + 4 * raws.length ≤ 2 ^ 32) {i : Nat} {w : Word}
    (hw : (laidOut base raws)[i]? = some w) :
    w.address.toNat = base.toNat + 4 * i ∧ i < raws.length := by
  have hlt : i < raws.length := by
    have hi := (List.getElem?_eq_some_iff.mp hw).1
    rwa [laidOut, List.length_mapIdx] at hi
  rw [address_of_laidOut hw, UInt32.toNat_add, UInt32.toNat_ofNat',
    Nat.mod_eq_of_lt (a := 4 * i) (by omega), Nat.mod_eq_of_lt (by omega)]
  exact ⟨rfl, hlt⟩

theorem ascending_laidOut (h : base.toNat + 4 * raws.length ≤ 2 ^ 32) :
    Ascending ⟨laidOut base raws⟩ := by
  refine List.pairwise_iff_getElem.mpr fun i j hi hj hij => ?_
  rw [(toNat_address_of_laidOut h (List.getElem?_eq_getElem hi)).1,
    (toNat_address_of_laidOut h (List.getElem?_eq_getElem hj)).1]
  omega

/-- All words of a binary lie in the range that it takes up, unless this range would end at the end
of the address space. -/
theorem wordsIn_laidOut (h : base.toNat + 4 * raws.length < 2 ^ 32) :
    wordsIn ⟨laidOut base raws⟩ (some ⟨base, base + UInt32.ofNat (4 * raws.length)⟩) =
      laidOut base raws := by
  have hlast : (base + UInt32.ofNat (4 * raws.length)).toNat = base.toNat + 4 * raws.length := by
    rw [UInt32.toNat_add, UInt32.toNat_ofNat', Nat.mod_eq_of_lt (a := 4 * raws.length) (by omega),
      Nat.mod_eq_of_lt (by omega)]
  refine List.filter_eq_self.mpr fun w hw => AddressRange.contains_iff.mpr ?_
  obtain ⟨i, hi⟩ := List.mem_iff_getElem?.mp hw
  obtain ⟨haddress, hlt⟩ := toNat_address_of_laidOut (Nat.le_of_lt h) hi
  rw [haddress, hlast]
  omega

/-- **Ranges.**  Let a binary of whole words lie below the end of the address space.  It loads, and
the dump of a range of its addresses, with or without the bits of the words, is the dump of the part
below an address in that range and then the dump of the part from that address on.  If addresses
are left behind the binary, the dump of the range that it takes up is the dump of all its words.
Every dump has one line for each of its words, in order and each ended by a line feed, whether the
word is an instruction or not. -/
theorem render_ranges (bytes : List UInt8) (base : UInt32) (hwords : 4 ∣ bytes.length)
    (hfits : base.toNat + bytes.length ≤ 2 ^ 32) (showBytes : Bool) :
    ∃ img, ofBinary bytes base = .ok img ∧
      (∀ first mid last, first ≤ mid → mid ≤ last →
        img.render (some ⟨first, last⟩) showBytes =
          img.render (some ⟨first, mid⟩) showBytes ++ img.render (some ⟨mid, last⟩) showBytes) ∧
      (base.toNat + bytes.length < 2 ^ 32 →
        img.render (some ⟨base, base + UInt32.ofNat bytes.length⟩) showBytes =
          img.render none showBytes) ∧
      ∀ range, (Text.lines (img.render range showBytes)).map (· ++ "\n") =
          (img.wordsIn range).map (Word.line showBytes) ∧
        img.render range showBytes =
          String.join ((Text.lines (img.render range showBytes)).map (· ++ "\n")) := by
  obtain ⟨raws, rfl⟩ : ∃ raws : List UInt32, bytes = raws.flatMap wordToBytes :=
    ⟨_, (flatMap_wordsFrom base hwords).symm⟩
  rw [length_flatMap_wordToBytes] at hfits ⊢
  refine ⟨⟨laidOut base raws⟩, ofBinary_eq_ok_iff.mpr ⟨raws, rfl, rfl⟩,
    fun first mid last hfirst hlast => (ascending_laidOut hfits).render_append hfirst hlast _,
    fun hroom => ?_, fun range => render_eq_join _ range showBytes⟩
  rw [render, wordsIn_laidOut hroom]
  rfl

/-- Two words near the end of the address space, the second of which is no instruction. -/
theorem render_ranges_data :
    let bytes : List UInt8 := [0x20, 0, 0, 0, 0xFF, 0xFF, 0xFF, 0xFF]
    let img : Image := ⟨[⟨0xFFFFFFF4, 0x20⟩, ⟨0xFFFFFFF8, 0xFFFFFFFF⟩]⟩
    4 ∣ bytes.length ∧ (0xFFFFFFF4 : UInt32).toNat + bytes.length < 2 ^ 32 ∧
    ofBinary bytes 0xFFFFFFF4 = .ok img ∧
    img.render (some ⟨0, 0xFFFFFFFF⟩) true =
      img.render (some ⟨0, 0xFFFFFFF8⟩) true ++ img.render (some ⟨0xFFFFFFF8, 0xFFFFFFFF⟩) true ∧
    img.render (some ⟨0xFFFFFFF4, 0xFFFFFFFC⟩) true = img.render none true ∧
    (Text.lines (img.render none true)).map (· ++ "\n") =
      ["0xfffffff4: 00000020  ldi r0, 0x1\n", "0xfffffff8: ffffffff  .word 0xffffffff\n"] ∧
    img.render (some ⟨0xFFFFFFF8, 0xFFFFFFFF⟩) true =
      "0xfffffff8: ffffffff  .word 0xffffffff\n" := by
  intro bytes img
  have hwords : 4 ∣ bytes.length := by decide
  have hroom : (0xFFFFFFF4 : UInt32).toNat + bytes.length < 2 ^ 32 := by decide
  obtain ⟨img', himg, hparts, hall, hlines⟩ :=
    render_ranges bytes 0xFFFFFFF4 hwords (Nat.le_of_lt hroom) true
  have hload : ofBinary bytes 0xFFFFFFF4 = .ok img := by decide +kernel
  obtain rfl : img' = img := Except.ok.inj (himg.symm.trans hload)
  have hboth := (hlines none).1
  have hlast := (hlines (some ⟨0xFFFFFFF8, 0xFFFFFFFF⟩)).2
  rw [(hlines (some ⟨0xFFFFFFF8, 0xFFFFFFFF⟩)).1] at hlast
  exact ⟨hwords, hroom, himg, hparts 0 0xFFFFFFF8 0xFFFFFFFF (by decide) (by decide), hall hroom,
    hboth.trans (by decide +kernel), hlast.trans (by decide +kernel)⟩

end Image

end Asm32
