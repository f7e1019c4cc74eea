import Asm32.Proofs.Binaries
import Asm32.Proofs.Sources
import Asm32.Proofs.SourceText
import Asm32.Tool.Assembler
import Asm32.Tool.Disassembler

/-!
# The written forms of a program load to one image

A listing is written for a reader: the source of an instruction stands after its word and its
address.  It is read back by lines and by blanks, so what matters of the source is that it has no
line feed and does not end in a carriage return; everything else stands behind the two fields that
are read.

A binary has the words alone.  Their addresses are counted up from the base, one word at a time,
which is how the session gave them out.

**Images** (`image_of_assemble`).  The listing and the binary of an assembled program load to the
same image, which has the words of the program at their addresses.

**From tool to tool** (`Tool.Disassembler.load_write`).  So the disassembler loads from a file what
the assembler has written to it.
-/

namespace Asm32

/-- The word of an item, at its address. -/
def Item.word (a : Item) : Word := ⟨a.address, a.opcode⟩

/-! ### Listings -/

namespace Item

theorem toList_listingLine (a : Item) :
    a.listingLine.toList =
      Numeral.padded 8 16 a.opcode.toNat ++
        ' ' :: (Numeral.padded 4 16 a.address.toNat ++ ' ' :: Text.trim a.text.toList) := by
  simp [listingLine, Numeral.hexColumn, Text.trimmed]

/-- The first two fields of a line are the word and the address, whatever the source is. -/
theorem fields_listingLine (a : Item) :
    Text.fields a.listingLine =
      Numeral.hexColumn 8 a.opcode.toNat :: Numeral.hexColumn 4 a.address.toNat ::
        Text.fields (Text.trimmed a.text) := by
  have hblank : ∀ width n, ∀ c ∈ Numeral.padded width 16 n, Text.isBlank c = false :=
    fun width n c hc =>
      Text.isBlank_of_isPlain ((Text.isWord_padded (by decide) (by decide) width n).plain c hc)
  rw [Text.fields, toList_listingLine,
    Text.words_append_sep (Numeral.padded_ne_nil 8 16 _) (hblank 8 _) rfl,
    Text.words_append_sep (Numeral.padded_ne_nil 4 16 _) (hblank 4 _) rfl, Text.fields,
    Text.trimmed, String.toList_ofList]
  rfl

theorem not_feed_listingLine {a : Item} (h : '\n' ∉ a.text.toList) :
    '\n' ∉ a.listingLine.toList := by
  have hpadded : ∀ width n, '\n' ∉ Numeral.padded width 16 n := fun width n =>
    (Text.isWord_padded (by decide) (by decide) width n).not_mem rfl
  rw [toList_listingLine]
  simp only [List.mem_append, List.mem_cons, not_or]
  exact ⟨hpadded 8 _, by decide, hpadded 4 _, by decide, fun hc => h (Text.mem_of_mem_trim hc)⟩

/-- A line ends with its source, which is trimmed, or with the blank before it. -/
theorem getLast?_listingLine (a : Item) : a.listingLine.toList.getLast? ≠ some '\r' := by
  intro h
  rw [toList_listingLine, List.getLast?_append, List.getLast?_cons, List.getLast?_append,
    List.getLast?_cons] at h
  cases htrim : (Text.trim a.text.toList).getLast? with
  | none =>
      rw [htrim] at h
      exact absurd (show some ' ' = some '\r' from h) (by decide)
  | some c =>
      rw [htrim] at h
      obtain rfl : c = '\r' := Option.some.inj h
      exact absurd (Text.isBlank_of_getLast?_trim htrim) (by decide)

end Item

theorem lines_listing {items : List Item} (h : ∀ a ∈ items, '\n' ∉ a.text.toList) :
    Text.lines (listing items) = items.map Item.listingLine := by
  have hlisting : listing items = String.join ((items.map Item.listingLine).map (· ++ "\n")) := by
    rw [listing, List.map_map]
    rfl
  rw [hlisting]
  refine Text.lines_join fun l hl => ?_
  obtain ⟨a, ha, rfl⟩ := List.mem_map.mp hl
  exact ⟨Item.not_feed_listingLine (h a ha), a.getLast?_listingLine⟩

namespace Image

theorem readHexWord_hexColumn (width : Nat) (w : UInt32) :
    readHexWord (Numeral.hexColumn width w.toNat) = .ok w := by
  rw [readHexWord, Numeral.hexColumn, String.toList_ofList,
    Numeral.readBelow_padded (by decide) (by decide) w.toNat_lt]
  exact congrArg Except.ok (UInt32.ofNat_toNat)

theorem readLine_listingLine (number : Nat) (a : Item) :
    readLine number a.listingLine = .ok (some a.word) := by
  simp only [readLine, Item.fields_listingLine, readHexWord_hexColumn]
  rfl

/-- Lines of a listing are read one by one, and their numbers do not matter. -/
theorem readLines_listingLines {ls : List (Nat × String)} {items : List Item}
    (h : ls.map Prod.snd = items.map Item.listingLine) :
    readLines ls = .ok (items.map Item.word) := by
  induction ls generalizing items with
  | nil =>
      obtain rfl := List.map_eq_nil_iff.mp h.symm
      rfl
  | cons l ls ih =>
      obtain ⟨number, line⟩ := l
      cases items with
      | nil => cases h
      | cons a items =>
          obtain ⟨hline, hls⟩ := List.cons.inj h
          obtain rfl : line = a.listingLine := hline
          simp only [readLines, readLine_listingLine, ih hls]
          rfl

/-- **Listings.**  A listing of items without line feeds in their texts loads to their words. -/
theorem ofListing_listing {items : List Item} (h : ∀ a ∈ items, '\n' ∉ a.text.toList) :
    ofListing (listing items) = .ok ⟨items.map Item.word⟩ := by
  have hlines : (Text.numberedLines (listing items)).map Prod.snd =
      items.map Item.listingLine := by
    rw [Text.map_snd_numberedLines, lines_listing h]
  rw [ofListing, readLines_listingLines hlines]
  rfl

/-! ### Binaries -/

/-- **Binaries.**  The binary of items that lie one after the other loads to their words. -/
theorem ofBinary_binary {setting : Setting} {items : List Item}
    (h : ∀ j a, items[j]? = some a → a.address = setting.addressOf j) :
    ofBinary (binary items) setting.origin = .ok ⟨items.map Item.word⟩ := by
  refine ofBinary_eq_ok_iff.mpr ⟨_, binary_eq items, List.ext_getElem? fun j => ?_⟩
  rw [laidOut, List.getElem?_mapIdx, List.getElem?_map, List.getElem?_map, Option.map_map]
  refine Option.map_congr fun a ha => ?_
  rw [Item.word, h j a ha]
  rfl

/-! ### Words at their addresses -/

/-- In an image without two words at an address, every word is found at its address. -/
theorem wordAt?_of_nodup {img : Image} (h : (img.words.map Word.address).Nodup) {w : Word}
    (hw : w ∈ img.words) : img.wordAt? w.address = some w.raw := by
  obtain ⟨words⟩ := img
  rw [wordAt?]
  induction words with
  | nil => cases hw
  | cons v words ih =>
      obtain ⟨hv, hwords⟩ := List.nodup_cons.mp h
      rcases List.mem_cons.mp hw with rfl | hw
      · rw [List.find?_cons_of_pos (by simp), Option.map_some]
      · have hne : v.address ≠ w.address := fun e => hv (e ▸ List.mem_map_of_mem hw)
        rw [List.find?_cons_of_neg (by simpa using hne)]
        exact ih hwords hw

end Image

/-- Up to the number of words that an address can tell apart, words have different addresses. -/
theorem Setting.addressOf_injOn (setting : Setting) {i j : Nat} (hi : i < 2 ^ 30) (hj : j < 2 ^ 30)
    (h : setting.addressOf i = setting.addressOf j) : i = j := by
  rw [addressOf, addressOf, UInt32.add_right_inj, ← UInt32.toNat_inj, UInt32.toNat_ofNat',
    UInt32.toNat_ofNat'] at h
  omega

/-- Items that lie one after the other have different addresses, up to that number. -/
theorem nodup_addresses {setting : Setting} {items : List Item}
    (h : ∀ j a, items[j]? = some a → a.address = setting.addressOf j)
    (hlength : items.length ≤ 2 ^ 30) : (items.map Item.address).Nodup := by
  have haddress : ∀ j (hj : j < items.length), items[j].address = setting.addressOf j :=
    fun j hj => h j _ (List.getElem?_eq_getElem hj)
  rw [List.nodup_iff_getElem?_ne_getElem?]
  intro i j hij hj he
  rw [List.length_map] at hj
  have hi : i < items.length := Nat.lt_trans hij hj
  rw [List.getElem?_map, List.getElem?_map, List.getElem?_eq_getElem hi,
    List.getElem?_eq_getElem hj, Option.map_some, Option.map_some, Option.some.injEq,
    haddress i hi, haddress j hj] at he
  have heq := setting.addressOf_injOn (Nat.lt_of_lt_of_le hi hlength)
    (Nat.lt_of_lt_of_le hj hlength) he
  exact Nat.ne_of_lt hij heq

/-! ### Assembled programs -/

/-- A statement keeps its line as it was written, without the blanks at its end. -/
theorem Line.text_of_read {number : Nat} {raw : String} {st : Statement}
    (h : Line.read number raw = .ok (.statement st)) : st.text = Text.trimmedEnd raw := by
  rw [Line.eq_statementOf_of_read h]
  rfl

/-- The text of an instruction of a source comes from one of its lines. -/
theorem Entry.text_of_mem_ofSource {source : String} {st : Statement}
    (h : st ∈ statements (ofSource source)) :
    ∃ l ∈ Text.lines source, st.text = Text.trimmedEnd l := by
  obtain ⟨e, he, hst⟩ := List.mem_filterMap.mp h
  obtain ⟨l, hl, rfl⟩ := List.mem_map.mp he
  obtain ⟨p, hp, rfl⟩ := List.mem_map.mp hl
  exact ⟨p.1, List.fst_mem_of_mem_zipIdx hp, Line.text_of_read (statement?_eq_some_iff.mp hst)⟩

/-- The items of an assembled program have no line feeds in their texts. -/
theorem not_feed_of_assemble {source : String} {setting : Setting} {items : List Item}
    (h : assemble source setting = .ok items) : ∀ a ∈ items, '\n' ∉ a.text.toList := by
  intro a ha
  obtain ⟨k, hk⟩ := List.mem_iff_getElem?.mp ha
  obtain ⟨st, op, hst, -, rfl⟩ := (assemble_eq_ok_iff.mp h).getElem? hk
  obtain ⟨l, hl, htext⟩ := Entry.text_of_mem_ofSource (List.mem_of_getElem? hst)
  obtain ⟨cs, hcs, rfl⟩ := List.mem_map.mp hl
  rw [Statement.item, htext, Text.trimmedEnd, String.toList_ofList, String.toList_ofList]
  exact fun hc => Text.not_feed_of_mem_splitLines hcs (Text.mem_of_mem_trimEnd hc)

/-- The items of an assembled program lie one after the other. -/
theorem address_of_assemble {source : String} {setting : Setting} {items : List Item}
    (h : assemble source setting = .ok items) :
    ∀ j a, items[j]? = some a → a.address = setting.addressOf j := by
  intro j a hj
  obtain ⟨st, op, -, -, rfl⟩ := (assemble_eq_ok_iff.mp h).getElem? hj
  rfl

/-- **Images.**  The listing of an assembled program loads, and its binary loads at the origin, and
both give the image with the words of the program at their addresses, in order.  If the program has
no more words than there are addresses for words, each of them is found at its address. -/
theorem image_of_assemble {source : String} {setting : Setting} {items : List Item}
    (h : assemble source setting = .ok items) :
    ∃ img : Image, Image.ofListing (listing items) = .ok img ∧
      Image.ofBinary (binary items) setting.origin = .ok img ∧
      img.words = items.map (fun a => ⟨a.address, a.opcode⟩) ∧
      (items.length ≤ 2 ^ 30 → ∀ a ∈ items, img.wordAt? a.address = some a.opcode) := by
  have haddress := address_of_assemble h
  refine ⟨⟨items.map Item.word⟩, Image.ofListing_listing (not_feed_of_assemble h),
    Image.ofBinary_binary haddress, rfl, fun hlength a ha => ?_⟩
  refine Image.wordAt?_of_nodup (w := a.word) ?_ (List.mem_map_of_mem ha)
  rw [List.map_map]
  exact nodup_addresses haddress hlength

/-- A source with carriage returns inside and at the end of lines, blanks beyond the ASCII ones, and
comments that look like fields of a listing; its addresses wrap around. -/
theorem image_of_assemble_wrapping :
    assemble "\u00a0ldi r0,\r1 ; 00 00\r\n@x:\n\tscs\u3000;\u2028beef\r" ⟨0xFFFFFFFC⟩ =
      .ok [⟨1, 0xFFFFFFFC, 0x20, "\u00a0ldi r0,\r1 ; 00 00"⟩,
        ⟨3, 0, 0x1800003F, "\tscs\u3000;\u2028beef"⟩] ∧
    ∃ img : Image,
      Image.ofListing (listing [⟨1, 0xFFFFFFFC, 0x20, "\u00a0ldi r0,\r1 ; 00 00"⟩,
        ⟨3, 0, 0x1800003F, "\tscs\u3000;\u2028beef"⟩]) = .ok img ∧
      Image.ofBinary [0x20, 0, 0, 0, 0x3F, 0, 0, 0x18] 0xFFFFFFFC = .ok img ∧
      img.words = [⟨0xFFFFFFFC, 0x20⟩, ⟨0, 0x1800003F⟩] ∧ img.wordAt? 0 = some 0x1800003F := by
  have h : assemble "\u00a0ldi r0,\r1 ; 00 00\r\n@x:\n\tscs\u3000;\u2028beef\r" ⟨0xFFFFFFFC⟩ =
      .ok [⟨1, 0xFFFFFFFC, 0x20, "\u00a0ldi r0,\r1 ; 00 00"⟩,
        ⟨3, 0, 0x1800003F, "\tscs\u3000;\u2028beef"⟩] := rfl
  obtain ⟨img, hlisting, hbinary, hwords, hat⟩ := image_of_assemble h
  exact ⟨h, img, hlisting, hbinary, hwords,
    hat (by decide) ⟨3, 0, 0x1800003F, "\tscs\u3000;\u2028beef"⟩ (.tail _ (.head _))⟩

/-! ### Files -/

namespace Tool

theorem Files.readText_of_toUTF8 {files : Files} {name text : String}
    (h : files.read name = .ok text.toUTF8) : files.readText name = .ok text := by
  have htext : String.fromUTF8? text.toUTF8 = some text := by
    rw [String.fromUTF8?, String.toUTF8_eq_toByteArray, dif_pos text.isValidUTF8]
    rfl
  simp only [readText, h, htext]

/-- **From tool to tool.**  A file that holds an assembled program as a listing, or as a binary
whose base is typed as the origin, is loaded as the words of the program at their addresses. -/
theorem Disassembler.load_write {source : String} {origin : UInt32} {items : List Item}
    (h : assemble source ⟨origin⟩ = .ok items) {files : Files} {name : String} :
    (files.read name = .ok (Format.listing.write items) →
      load files name .listing = .ok ⟨items.map Item.word⟩) ∧
    ∀ base, readAddress base = .ok origin → files.read name = .ok (Format.binary.write items) →
      load files name (.binary base 0) = .ok ⟨items.map Item.word⟩ := by
  constructor
  · intro hread
    simp only [load, Files.readText_of_toUTF8 hread,
      Image.ofListing_listing (not_feed_of_assemble h)]
    rfl
  · intro base hbase hread
    have himage := Image.ofBinary_binary (address_of_assemble h)
    simp only [load, hbase, hread, Nat.zero_le, if_true, List.drop_zero]
    show (Image.ofBinary (binary items) origin).mapError imageFailure = _
    rw [himage]
    rfl

end Tool

end Asm32
