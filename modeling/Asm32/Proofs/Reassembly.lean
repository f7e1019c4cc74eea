import Asm32.Listing
import Asm32.Proofs.Encoding
import Asm32.Proofs.Sources
import Asm32.Proofs.Spelling

/-!
# Disassembling and assembling again

The words of an assembled program are words that the groups give, so each of them decodes to an
instruction whose text asks for the same word.  The lines of these texts hold an instruction each
and declare no label, so what they give depends on no table.

**Reassembly** (`assemble_disassembled`).  The texts of the instructions of an assembled program,
one on each line, are assembled to the same words at the same addresses.

A word that no group gives may decode as well: a load whose constant has a smaller shift.  Its text
shows the constant and not the shift, so it asks for the load with the least shift.

**Texts of words** (`assemble_text_of_decode?`).  The text of any word that decodes is assembled to
one word, the same one unless it loads a constant whose shift is not the least.
-/

namespace Asm32
open Entry

/-! ### The words of an assembled program -/

/-- The standard registry gives words of the groups only. -/
theorem emitted_of_dispatch {symbols : SymbolTable} {m : String} {tokens : List String}
    {op : UInt32} (h : Registry.standard.dispatch symbols m tokens = .ok (.resolved op)) :
    Emitted op := by
  obtain ⟨e, ops, he, -, hop⟩ := Registry.dispatch_eq_resolved_iff.mp h
  obtain ⟨g, -, rfl⟩ := Registry.lookup_standard_eq_some_iff.mp he
  exact ⟨g, m, ops, hop⟩

/-- The item with the number `k` has the address of the `k`-th word, and its word is one that a
group gives. -/
theorem getElem?_of_assemble {source : String} {setting : Setting} {items : List Item}
    (h : assemble source setting = .ok items) {k : Nat} {a : Item} (hk : items[k]? = some a) :
    a.address = setting.addressOf k ∧ Emitted a.opcode := by
  obtain ⟨st, op, -, hd, rfl⟩ := (assemble_eq_ok_iff.mp h).getElem? hk
  exact ⟨rfl, emitted_of_dispatch hd⟩

theorem exists_instrs {items : List Item} (h : ∀ a ∈ items, Emitted a.opcode) :
    ∃ instrs : List Instr, items.map (fun a => Instr.decode? a.opcode) = instrs.map some ∧
      ∀ i ∈ instrs, i.Canonical := by
  induction items with
  | nil => exact ⟨[], rfl, fun i hi => absurd hi List.not_mem_nil⟩
  | cons a items ih =>
      obtain ⟨i, hi, hc⟩ := emitted_iff.mp (h a List.mem_cons_self)
      obtain ⟨instrs, his, hcs⟩ := ih (fun b hb => h b (List.mem_cons_of_mem a hb))
      refine ⟨i :: instrs, ?_, List.forall_mem_cons.mpr ⟨hc, hcs⟩⟩
      rw [List.map_cons, List.map_cons, hi, his]

/-! ### Reading the texts of instructions -/

/-- The word of an instruction that has one. -/
def Instr.word (i : Instr) : UInt32 := i.encode.toOption.getD 0

/-- The instruction can be asked for, and has a word. -/
structure Instr.Assembles (i : Instr) : Prop where
  wellFormed : i.WellFormed
  canonical : i.Canonical
  encode_eq : i.encode = .ok i.word

theorem Instr.word_eq_of_encode {i : Instr} {raw : UInt32} (h : i.encode = .ok raw) :
    i.word = raw := by
  rw [Instr.word, h]
  rfl

/-- An instruction that can be asked for has a word. -/
theorem Instr.assembles_of_canonical {i : Instr} (hw : i.WellFormed) (hc : i.Canonical) :
    i.Assembles := by
  obtain ⟨raw, hraw⟩ := (Instr.requested_first hw hc).exists_word
  exact ⟨hw, hc, by rw [hraw, Instr.word_eq_of_encode hraw]⟩

theorem Instr.assembles_of_decode? {i : Instr} {raw : UInt32} (h : Instr.decode? raw = some i)
    (hc : i.Canonical) : i.Assembles :=
  Instr.assembles_of_canonical (Instr.decode?_eq_some_iff.mp h).1 hc

/-- The instructions with the numbers of their lines. -/
def numbered (instrs : List Instr) : List (Nat × Instr) :=
  instrs.zipIdx.map fun p => (p.2 + 1, p.1)

/-- The texts of instructions, one on each line, are entries that hold these instructions. -/
theorem ofSource_texts {instrs : List Instr} (h : ∀ i ∈ instrs, i.Assembles) :
    ofSource ("\n".intercalate (instrs.map Instr.text)) =
      (numbered instrs).map fun l => ⟨l.1, .ok (.statement (l.2.statement l.1))⟩ := by
  have hlines : Text.lines ("\n".intercalate (instrs.map Instr.text)) = instrs.map Instr.text := by
    apply Text.lines_intercalate
    intro l hl
    obtain ⟨i, hi, rfl⟩ := List.mem_map.mp hl
    exact Instr.isLine_text (h i hi).wellFormed
  rw [ofSource, Text.numberedLines, hlines, numbered, List.zipIdx_map, List.map_map, List.map_map,
    List.map_map]
  refine List.map_congr_left fun p hp => ?_
  have hread := p.1.read_text (h p.1 (List.fst_mem_of_mem_zipIdx hp)).wellFormed (p.2 + 1)
  simp only [Function.comp_apply, ofLine, Prod.map, id, hread]

/-- The items of instructions that lie one after the other. -/
def itemsOf (setting : Setting) (instrs : List Instr) : List Item :=
  instrs.mapIdx fun k i => (i.statement (k + 1)).item (setting.addressOf k) i.word

/-- The texts of instructions, one on each line, are assembled to the words of the instructions. -/
theorem assemble_texts (setting : Setting) {instrs : List Instr} (h : ∀ i ∈ instrs, i.Assembles) :
    assemble ("\n".intercalate (instrs.map Instr.text)) setting =
      .ok (itemsOf setting instrs) := by
  have hlabels : labels ((numbered instrs).map fun l =>
      ⟨l.1, .ok (.statement (l.2.statement l.1))⟩) = [] := by
    apply List.filterMap_eq_nil_iff.mpr
    intro e he
    obtain ⟨l, -, rfl⟩ := List.mem_map.mp he
    rfl
  have hstatements : statements ((numbered instrs).map fun l =>
      ⟨l.1, .ok (.statement (l.2.statement l.1))⟩) =
        (numbered instrs).map fun l => l.2.statement l.1 := by
    rw [statements, List.filterMap_map]
    exact congrFun List.filterMap_eq_map _
  rw [assemble_eq_ok_iff, ofSource_texts h]
  refine ⟨?_, by rw [hlabels]; exact List.nodup_nil, ?_⟩
  · intro e he
    obtain ⟨l, -, rfl⟩ := List.mem_map.mp he
    exact ⟨_, rfl⟩
  · -- the labels play no part: no text of an instruction names one
    rw [hstatements]
    apply List.ext_getElem?
    intro k
    simp only [itemsOf, numbered, List.getElem?_mapIdx, List.getElem?_map, List.getElem?_zipIdx]
    cases hk : instrs[k]? with
    | none => rfl
    | some i =>
        have hi := h i (List.mem_of_getElem? hk)
        have hd := i.dispatch_statement hi.wellFormed hi.canonical hi.encode_eq
        simp only [Option.map_some, Nat.zero_add]
        rw [onePass_eq_ok_iff.mpr ⟨i.word, hd _ (k + 1), rfl⟩]

/-- Items at consecutive addresses have the addresses and the words of the items of the instructions
that they hold. -/
theorem map_itemsOf {setting : Setting} {items : List Item} {instrs : List Instr}
    (haddress : ∀ (k : Nat) (a : Item), items[k]? = some a → a.address = setting.addressOf k)
    (hdecode : items.map (fun a => Instr.decode? a.opcode) = instrs.map some) :
    (itemsOf setting instrs).map (fun a => (a.address, a.opcode)) =
      items.map (fun a => (a.address, a.opcode)) := by
  apply List.ext_getElem?
  intro k
  have hk := congrArg (fun rs => rs[k]?) hdecode
  simp only [itemsOf, List.getElem?_map, List.getElem?_mapIdx] at hk ⊢
  cases ha : items[k]? with
  | none =>
      rw [ha, Option.map_none, eq_comm, Option.map_eq_none_iff] at hk
      rw [hk]
      rfl
  | some a =>
      rw [ha, Option.map_some, eq_comm, Option.map_eq_some_iff] at hk
      obtain ⟨i, hi, hd⟩ := hk
      have hword := Instr.word_eq_of_encode (Instr.decode?_eq_some_iff.mp hd.symm).2
      simp only [hi, Option.map_some, Statement.item, haddress k a ha, hword]

/-- **Reassembly.**  Every word of an assembled program decodes, and the texts of the instructions,
one on each line, are assembled with the same origin to items with the same addresses and the same
words, and so to the same binary. -/
theorem assemble_disassembled {source : String} {setting : Setting} {items : List Item}
    (h : assemble source setting = .ok items) :
    ∃ instrs : List Instr, items.map (fun a => Instr.decode? a.opcode) = instrs.map some ∧
      ∃ items' : List Item,
        assemble ("\n".intercalate (instrs.map Instr.text)) setting = .ok items' ∧
        items'.map (fun a => (a.address, a.opcode)) = items.map (fun a => (a.address, a.opcode)) ∧
        binary items' = binary items := by
  have hitem : ∀ (k : Nat) (a : Item), items[k]? = some a →
      a.address = setting.addressOf k ∧ Emitted a.opcode := fun k a => getElem?_of_assemble h
  have hemitted : ∀ a ∈ items, Emitted a.opcode := by
    intro a ha
    obtain ⟨k, hk⟩ := List.mem_iff_getElem?.mp ha
    exact (hitem k a hk).2
  obtain ⟨instrs, hdecode, hcanonical⟩ := exists_instrs hemitted
  have hassembles : ∀ i ∈ instrs, i.Assembles := by
    intro i hi
    have hmem : some i ∈ items.map fun a => Instr.decode? a.opcode := by
      rw [hdecode]
      exact List.mem_map_of_mem hi
    obtain ⟨a, -, hd⟩ := List.mem_map.mp hmem
    exact Instr.assembles_of_decode? hd (hcanonical i hi)
  have hmap := map_itemsOf (fun k a hk => (hitem k a hk).1) hdecode
  have hbinary : ∀ l : List Item,
      binary l = (l.map fun a => (a.address, a.opcode)).flatMap fun p => wordToBytes p.2 := by
    intro l
    rw [binary, List.flatMap_map]
  exact ⟨instrs, hdecode, itemsOf setting instrs, assemble_texts setting hassembles, hmap,
    by rw [hbinary, hmap, ← hbinary]⟩

/-- A program with aliases and a label that is declared after its use; its addresses wrap around. -/
theorem assemble_disassembled_wrapping :
    assemble "NOT r2 ; invert\nldi r1, @end\n@end:\ntest r2" ⟨0xFFFFFFFC⟩ =
      .ok [⟨1, 0xFFFFFFFC, 0x8038042, "NOT r2 ; invert"⟩, ⟨2, 0, 0x81, "ldi r1, @end"⟩,
        ⟨4, 4, 0x805005F, "test r2"⟩] ∧
    ∃ instrs : List Instr,
      [0x8038042, 0x81, 0x805005F].map Instr.decode? = instrs.map some ∧
      ∃ items' : List Item,
        assemble ("\n".intercalate (instrs.map Instr.text)) ⟨0xFFFFFFFC⟩ = .ok items' ∧
        items'.map (fun a => (a.address, a.opcode)) =
          [(0xFFFFFFFC, 0x8038042), (0, 0x81), (4, 0x805005F)] := by
  have h : assemble "NOT r2 ; invert\nldi r1, @end\n@end:\ntest r2" ⟨0xFFFFFFFC⟩ =
      .ok [⟨1, 0xFFFFFFFC, 0x8038042, "NOT r2 ; invert"⟩, ⟨2, 0, 0x81, "ldi r1, @end"⟩,
        ⟨4, 4, 0x805005F, "test r2"⟩] := rfl
  obtain ⟨instrs, hdecode, items', hassemble, hmap, -⟩ := assemble_disassembled h
  exact ⟨h, instrs, hdecode, items', hassemble, hmap⟩

/-! ### The text of one word -/

theorem Instr.Assembles.decode?_word {i : Instr} (h : i.Assembles) :
    Instr.decode? i.word = some i :=
  Instr.decode?_eq_some_iff.mpr ⟨h.wellFormed, h.encode_eq⟩

/-- The text of an instruction is a source of one line. -/
theorem Instr.Assembles.assemble_text {i : Instr} (h : i.Assembles) (setting : Setting) :
    assemble i.text setting = .ok [(i.statement 1).item (setting.addressOf 0) i.word] := by
  have hline : "\n".intercalate ([i].map Instr.text) = i.text := by
    apply String.toList_inj.mp
    simp
  rw [← hline, assemble_texts setting (by simpa using h)]
  rfl

/-- A load has the text of the load of its constant with the least shift. -/
theorem Instr.exists_least_load {w : UInt32} {dest : Reg} {p : Packed}
    (h : Instr.decode? w = some (.ldi dest p)) :
    ∃ q : Packed, (Instr.ldi dest q).Assembles ∧
      (Instr.ldi dest q).text = (Instr.ldi dest p).text ∧
      q.unpack = p.unpack ∧ q.shift ≤ p.shift ∧ (q = p ↔ p.Least) := by
  have hp := Instr.fits_of_decode? h
  obtain ⟨q, hq, hsame, hleast⟩ := Packed.exists_least hp
  have hc : (Instr.ldi dest q).Canonical := by
    intro dest' q' e
    obtain ⟨-, rfl⟩ := Instr.ldi.inj e
    exact ⟨hq, hleast⟩
  have hle : q.shift ≤ p.shift := hleast p hp hsame.symm
  refine ⟨q, Instr.assembles_of_canonical trivial hc, by rw [Instr.text, Instr.text, hsame], hsame,
    hle, fun e => e ▸ hleast, fun hl => ?_⟩
  exact Packed.eq_of_shift_eq hp hq hsame (UInt8.le_antisymm hle (hl q hq hsame))

/-- **Texts of words.**  The text of the instruction that a word decodes to is assembled to one
item.  Its word is the same one when the instruction is not a load.  The word of a load becomes a
load of the same constant into the same register whose shift is not larger, and it is the same word
exactly when there is no smaller shift for the constant. -/
theorem assemble_text_of_decode? {w : UInt32} {i : Instr} (h : Instr.decode? w = some i)
    (setting : Setting) :
    ∃ a : Item, assemble i.text setting = .ok [a] ∧
      ((∀ dest p, i ≠ .ldi dest p) → a.opcode = w) ∧
      ∀ dest p, i = .ldi dest p →
        ∃ q, Instr.decode? a.opcode = some (.ldi dest q) ∧ q.unpack = p.unpack ∧
          q.shift ≤ p.shift ∧ (a.opcode = w ↔ p.Least) := by
  have hword : i.word = w := Instr.word_eq_of_encode (Instr.decode?_eq_some_iff.mp h).2
  by_cases hload : ∃ dest p, i = .ldi dest p
  · obtain ⟨dest, p, rfl⟩ := hload
    obtain ⟨q, hq, htext, hsame, hle, hiff⟩ := Instr.exists_least_load h
    have hassemble := hq.assemble_text setting
    rw [htext] at hassemble
    refine ⟨_, hassemble, fun hne => absurd rfl (hne dest p), ?_⟩
    rintro _ _ ⟨⟩
    refine ⟨q, hq.decode?_word, hsame, hle, ?_⟩
    rw [← hiff]
    constructor
    · -- a word decodes to one instruction only
      intro e
      have hd : some (Instr.ldi dest q) = some (.ldi dest p) := by
        rw [← hq.decode?_word, ← h]
        exact congrArg Instr.decode? e
      exact (Instr.ldi.inj (Option.some.inj hd)).2
    · rintro rfl
      exact hword
  · push Not at hload
    have hc : i.Canonical := fun dest p e => absurd e (hload dest p)
    have hi := Instr.assembles_of_decode? h hc
    exact ⟨_, hi.assemble_text setting, fun _ => hword, fun dest p e => absurd e (hload dest p)⟩

/-- A zero with a shift is loaded by another word than the zero that its text asks for. -/
theorem assemble_text_of_decode?_shifted :
    Instr.decode? 0x400000 = some (.ldi (.gpr 0) ⟨0, 1⟩) ∧
    ∃ a : Item, assemble "ldi r0, 0x0" ⟨0⟩ = .ok [a] ∧ a.opcode ≠ 0x400000 ∧
      ∃ q, Instr.decode? a.opcode = some (.ldi (.gpr 0) q) ∧ q.unpack = 0 ∧ q.shift ≤ 1 := by
  have hd : Instr.decode? 0x400000 = some (.ldi (.gpr 0) ⟨0, 1⟩) := rfl
  obtain ⟨a, ha, -, hload⟩ := assemble_text_of_decode? hd ⟨0⟩
  obtain ⟨q, hq, hsame, hle, hiff⟩ := hload _ _ rfl
  refine ⟨hd, a, ha, fun e => ?_, q, hq, hsame, hle⟩
  have hshift := hiff.mp e ⟨0, 0⟩ ⟨by decide, by decide⟩ rfl
  exact absurd hshift (by decide)

end Asm32
