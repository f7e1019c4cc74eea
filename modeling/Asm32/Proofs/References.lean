import Asm32.Proofs.Domains
import Asm32.Proofs.Encoding
import Asm32.Proofs.Grammar
import Asm32.Proofs.Registration
import Asm32.Proofs.SourceText
import Asm32.Proofs.Sources

/-!
# References to labels

A label is declared on a line of its own and named in the operands of a load.

The name of a declaration ends at its colon, and may have any character but a blank; an operand also
ends at a comma.  So a name without a comma is read as one operand, and any other falls into the
parts between its commas (`Line.read_reference`).  Of itself, every name that can be declared
stands for the address of the label (`Operand.read_label`).

The addresses of labels are those of instructions, or the one after the last
(`Entry.address_of_declaration?`).  As long as the program ends at `2 ^ 18` or before, they can all
be loaded: a multiple of four below that is a number of sixteen bits moved left by two, and the
bound itself a smaller one moved left by three (`Packed.loadable_of_dvd`).

**Loads of labels** (`Session.loads_of_labels`).  In a program of at most 256 KiB every load of a
declared label has a word, and that word loads the address of the label.
-/

namespace Asm32
open Text

/-! ### Names as operands -/

namespace Line

/-- The name of a label that a line declares. -/
theorem isName_of_read {number : Nat} {raw name : String}
    (h : read number raw = .ok (.label name)) : IsName name.toList ∧ commentSign ∉ name.toList := by
  obtain ⟨hcode, hname⟩ := read_eq_label_iff.mp h
  obtain ⟨-, -, -, -, -, -, hcomment, -⟩ := hasCode_code raw.toList
  rw [hcode] at hcomment
  exact ⟨hname, fun hm => hcomment (List.mem_append_left _ hm)⟩

/-- The words of a load of a name: the commas of the name divide it. -/
theorem words_reference {name : List Char} (h : IsName name) :
    words isSeparator ("ldi r0, ".toList ++ name) =
      "ldi".toList :: "r0".toList :: words (· == ',') name := by
  have hname : words isSeparator name = words (· == ',') name :=
    words_congr fun c hc => by rw [isSeparator, h.not_blank c hc, Bool.or_false]
  have hmnemonic : IsWord "ldi".toList := ⟨by simp, by simp [isPlain]⟩
  have hregister : IsWord "r0".toList := ⟨by simp, by simp [isPlain]⟩
  have hblank : isSeparator ' ' = true := rfl
  have hsplit : "ldi r0, ".toList ++ name =
      "ldi".toList ++ ' ' :: ("r0".toList ++ ',' :: ([] ++ ' ' :: name)) := by simp
  rw [hsplit, words_append_sep hmnemonic.ne_nil hmnemonic.isToken.not_separator rfl,
    words_append_sep hregister.ne_nil hregister.isToken.not_separator rfl,
    words_append_cons hblank, hname]
  rfl

/-- A load of a name is a statement. -/
theorem read_load {name : String} (hname : IsName name.toList)
    (hcomment : commentSign ∉ name.toList) (number : Nat) :
    ∃ st, read number ("ldi r0, " ++ name) = .ok (.statement st) ∧
      st.operands = "r0" :: (words (· == ',') name.toList).map String.ofList := by
  have hraw : ("ldi r0, " ++ name).toList = "ldi r0, ".toList ++ name.toList :=
    String.toList_append
  have htake : ("ldi r0, ".toList ++ name.toList).takeWhile (· != commentSign) =
      "ldi r0, ".toList ++ name.toList := by
    have hcs : commentSign ∉ "ldi r0, ".toList ++ name.toList := by
      simp only [List.mem_append, hcomment, or_false]
      decide
    have h := takeWhile_comment hcs (.inl rfl)
    rwa [List.append_nil] at h
  have hhead : (code ("ldi r0, " ++ name).toList).head? = some 'l' := by
    rw [hraw, code, htake, head?_trim]
    rfl
  refine ⟨_, read_of_head? hhead (by decide) number, ?_⟩
  rw [statementOf, words_code, hraw, htake, words_reference hname]
  rfl

end Line

/-- **References.**  Take a name that a line declares.  A load of it is a statement, and its
operands are the register and the parts of the name between commas, so that the name is its second
operand exactly when there is no comma in it.  The name itself stands for the address of the label
in every table that binds it, and is unresolved in every other. -/
theorem Line.read_reference {number : Nat} {raw name : String}
    (h : Line.read number raw = .ok (.label name)) :
    (∀ n, ∃ st, Line.read n ("ldi r0, " ++ name) = .ok (.statement st) ∧
      st.operands = "r0" :: (words (· == ',') name.toList).map String.ofList ∧
      (st.operands = ["r0", name] ↔ ',' ∉ name.toList)) ∧
    ∀ t : SymbolTable,
      (∀ a, t.lookup name = some a → Operand.read t name = .ok (.resolved (.imm a.toNat))) ∧
      (t.lookup name = none → Operand.read t name = .ok (.unresolved name)) := by
  obtain ⟨hname, hcomment⟩ := isName_of_read h
  refine ⟨fun n => ?_, Operand.read_label hname.sigil hname.long⟩
  obtain ⟨st, hst, hoperands⟩ := read_load hname hcomment n
  refine ⟨st, hst, hoperands, ?_⟩
  rw [hoperands]
  constructor
  · intro hone hcomma
    have hmem : name ∈ (words (· == ',') name.toList).map String.ofList := by
      rw [(List.cons.inj hone).2]
      exact List.mem_singleton_self name
    obtain ⟨w, hw, rfl⟩ := List.mem_map.mp hmem
    rw [String.toList_ofList] at hcomma
    exact absurd (not_sep_of_mem_words hw _ hcomma) (by decide)
  · intro hcomma
    have hne : name.toList ≠ [] := List.ne_nil_of_length_pos (Nat.zero_lt_of_lt hname.long)
    have hplain : ∀ c ∈ name.toList, (c == ',') = false := by
      intro c hc
      exact beq_false_of_ne (ne_of_mem_of_not_mem hc hcomma)
    rw [words_of_forall hne hplain]
    simp

/-- A name without a comma, on a line with a comment. -/
theorem Line.read_reference_loop :
    Line.read 1 "@loop: ; top" = .ok (.label "@loop") ∧
    (∃ st, Line.read 2 "ldi r0, @loop" = .ok (.statement st) ∧ st.operands = ["r0", "@loop"]) ∧
    Operand.read .empty "@loop" = .ok (.unresolved "@loop") := by
  have hread : Line.read 1 "@loop: ; top" = .ok (.label "@loop") := rfl
  obtain ⟨hload, htables⟩ := read_reference hread
  obtain ⟨st, hst, -, hoperands⟩ := hload 2
  exact ⟨hread, ⟨st, hst, hoperands.mpr (by decide)⟩, (htables .empty).2 rfl⟩

/-- A label whose name has a comma can be declared, and a load of it has three operands. -/
theorem Line.not_reference_comma :
    Line.read 1 "@a,b:" = .ok (.label "@a,b") ∧
    Line.read 2 ("ldi r0, " ++ "@a,b") =
      .ok (.statement ⟨2, "ldi", ["r0", "@a", "b"], "ldi r0, @a,b"⟩) :=
  ⟨rfl, rfl⟩

/-! ### Addresses that can be loaded -/

/-- A multiple of four is loaded with a shift of two, and the bound with a shift of three. -/
theorem Packed.loadable_of_dvd {c : Nat} (hdvd : 4 ∣ c) (hle : c ≤ 2 ^ 18) : Loadable c := by
  refine ⟨⟨by omega, by omega⟩, ?_⟩
  by_cases hc : c = 2 ^ 18
  · exact ⟨2 ^ 15, 3, by norm_num, by decide, by rw [hc]; rfl⟩
  · obtain ⟨v, rfl⟩ := hdvd
    refine ⟨v, 2, by omega, by decide, ?_⟩
    rw [show (v : Int) * 2 ^ 2 = (4 * v : Nat) by push_cast; ring]

/-- A constant that can be loaded has a word that loads it. -/
theorem Group.exists_load {c : Int} (h : Packed.Loadable c) (m : String) (dest : Reg) :
    ∃ raw p, Group.loadImmediate.encode m [.reg dest, .imm c] = .ok raw ∧
      Instr.decode? raw = some (.ldi dest p) ∧ p.unpack = UInt32.ofInt c := by
  obtain ⟨p, hp⟩ := Option.isSome_iff_exists.mp (Packed.isSome_pack?_iff.mpr h)
  have hword : p.unpack = UInt32.ofInt c := (Packed.pack?_eq_some_iff.mp hp).2.2.1
  have hi : Instr.Requested .loadImmediate m [.reg dest, .imm c] (.ldi dest p) := .load hp hword
  obtain ⟨raw, hraw⟩ := hi.exists_word
  exact ⟨raw, p, encode_eq_ok_iff.mpr ⟨_, hi, hraw⟩, decode?_of_requested hi hraw, hword⟩

/-- A register is read without a table. -/
theorem Operand.read_reg {token : String} {dest : Reg}
    (h : read .empty token = .ok (.resolved (.reg dest))) (t : SymbolTable) :
    read t token = .ok (.resolved (.reg dest)) := by
  have hle : SymbolTable.empty.Le t := by
    intro n a hn
    cases hn
  rw [read_of_le hle (by rw [h]; exact settled_resolved _), h]

/-- An address that can be loaded is loaded by the instruction that names its label. -/
theorem Registry.dispatch_load {t : SymbolTable} {token name : String} {dest : Reg} {a : UInt32}
    (htoken : Operand.read .empty token = .ok (.resolved (.reg dest)))
    (hname : Operand.read t name = .ok (.resolved (.imm a.toNat)))
    (ha : Packed.Loadable a.toNat) :
    ∃ op p, standard.dispatch t "ldi" [token, name] = .ok (.resolved op) ∧
      Instr.decode? op = some (.ldi dest p) ∧ p.unpack = a := by
  obtain ⟨op, p, hop, hdecode, hword⟩ := Group.exists_load ha "ldi" dest
  refine ⟨op, p, dispatch_eq_resolved_iff.mpr ?_, hdecode, ?_⟩
  · refine ⟨Group.loadImmediate.encoder, [.reg dest, .imm a.toNat], ?_, ?_, hop⟩
    · exact lookup_standard_eq_some_iff.mpr ⟨.loadImmediate, by simp [Group.mnemonics], rfl⟩
    · exact Operand.readAll_eq_resolved_iff.mpr
        (.cons (Operand.read_reg htoken t) (.cons hname .nil))
  · rw [hword, Packed.ofInt_toNat]

/-! ### The addresses of labels -/

theorem Setting.toNat_addressOf {setting : Setting} {k : Nat}
    (h : setting.origin.toNat + 4 * k < 2 ^ 32) :
    (setting.addressOf k).toNat = setting.origin.toNat + 4 * k := by
  rw [addressOf, UInt32.toNat_add, UInt32.toNat_ofNat', Nat.mod_eq_of_lt (a := 4 * k) (by omega),
    Nat.mod_eq_of_lt h]

/-- A label is bound to the address of an instruction, or to the one after the last. -/
theorem Entry.address_of_declaration? {setting : Setting} {name : String} {k : Nat}
    {es : List Entry} {y : Symbol} (h : declaration? setting name k es = some y) :
    ∃ j ≤ (statements es).length, y.address = setting.addressOf (k + j) := by
  induction es generalizing k with
  | nil => cases h
  | cons e es ih =>
      rw [declaration?] at h
      rw [statements_cons, List.length_append]
      split at h
      · cases h
        exact ⟨0, Nat.zero_le _, rfl⟩
      · obtain ⟨j, hj, hy⟩ := ih h
        exact ⟨e.statement?.toList.length + j, by omega, by rw [hy, Nat.add_assoc]⟩

/-- In a program of whole words that ends at `2 ^ 18` or before, every label can be loaded. -/
theorem Entry.loadable_of_label {setting : Setting} {es : List Entry}
    (hdvd : 4 ∣ setting.origin.toNat)
    (hsize : setting.origin.toNat + 4 * (statements es).length ≤ 2 ^ 18) {name : String}
    (h : name ∈ labels es) :
    ∃ a, (table setting es).lookup name = some a ∧ Packed.Loadable a.toNat := by
  obtain ⟨y, hy⟩ := Option.ne_none_iff_exists'.mp (mt declaration?_eq_none_iff.mp (not_not_intro h))
  obtain ⟨j, hj, haddress⟩ := address_of_declaration? hy
  rw [Nat.zero_add] at haddress
  refine ⟨y.address, by rw [lookup_table, hy]; rfl, ?_⟩
  rw [haddress, Setting.toNat_addressOf (by omega)]
  exact Packed.loadable_of_dvd (by omega) (by omega)

/-- A label that a source declares can be named by an operand. -/
theorem Entry.isName_of_mem_labels {source name : String} (h : name ∈ labels (ofSource source)) :
    Line.IsName name.toList := by
  obtain ⟨e, he, hlabel⟩ := List.mem_filterMap.mp h
  obtain ⟨l, -, rfl⟩ := List.mem_map.mp he
  exact (Line.isName_of_read (label?_eq_some_iff.mp hlabel)).1

namespace Session

/-- **Loads of labels.**  All lines of a source are given to a session, each whatever became of the
ones before.  The origin is a multiple of four, and the last instruction ends at `2 ^ 18` or before.
Then every load of a label that the source declares, on whatever line, has a word, which loads the
address of the label into the register. -/
theorem loads_of_labels (setting : Setting) (source : String)
    (hdvd : 4 ∣ setting.origin.toNat)
    (hsize : setting.origin.toNat +
      4 * (Entry.statements (Entry.ofSource source)).length ≤ 2 ^ 18) :
    let calls := (Text.numberedLines source).map fun l => Call.line l.1 l.2
    let s := ((start .standard setting).callAll calls).1
    ∀ (i : Nat) (st : Statement) (token name : String) (dest : Reg),
      (Entry.statements (Entry.ofSource source))[i]? = some st → st.mnemonic = "ldi" →
      st.operands = [token, name] → Operand.read .empty token = .ok (.resolved (.reg dest)) →
      name ∈ Entry.labels (Entry.ofSource source) →
      ∃ a op p, s.symbols.lookup name = some a ∧
        s.finish[i]? = some (.ok (st.item (setting.origin + UInt32.ofNat (4 * i)) op)) ∧
        Instr.decode? op = some (.ldi dest p) ∧ p.unpack = a := by
  intro calls s i st token name dest hi hm hops htoken hname
  have hs : s = ((start .standard setting).takeAll (Entry.ofSource source)).1 :=
    congrArg Prod.fst (callAll_lines _ _)
  obtain ⟨a, ha, hload⟩ := Entry.loadable_of_label hdvd hsize hname
  have hlabel := Entry.isName_of_mem_labels hname
  have hread := (Operand.read_label hlabel.sigil hlabel.long _).1 a ha
  obtain ⟨op, p, hdispatch, hdecode, hword⟩ := Registry.dispatch_load htoken hread hload
  refine ⟨a, op, p, by rw [hs]; exact ha, ?_, hdecode, hword⟩
  rw [hs, finish_takeAll, List.getElem?_mapIdx, hi]
  refine congrArg some (onePass_eq_ok_iff.mpr ⟨op, ?_, rfl⟩)
  rw [hm, hops]
  exact hdispatch

/-- A program that ends at the bound.  The label after its last instruction is loaded before it is
declared; a line between is at fault, and takes its word. -/
theorem loads_of_labels_bound :
    let source := "ldi r1, @end ; forward\nbogus\n@end:"
    let calls := (Text.numberedLines source).map fun l => Call.line l.1 l.2
    let s := ((start .standard ⟨0x3FFF8⟩).callAll calls).1
    0x3FFF8 + 4 * (Entry.statements (Entry.ofSource source)).length = 2 ^ 18 ∧
    s.symbols.lookup "@end" = some 0x40000 ∧
    ∃ op p, s.finish[0]? = some (.ok ⟨1, 0x3FFF8, op, "ldi r1, @end ; forward"⟩) ∧
      Instr.decode? op = some (.ldi (.gpr 1) p) ∧ p.unpack = 0x40000 := by
  intro source calls s
  have hsize : 0x3FFF8 + 4 * (Entry.statements (Entry.ofSource source)).length = 2 ^ 18 := by
    decide
  have hlookup : s.symbols.lookup "@end" = some 0x40000 := by decide
  obtain ⟨a, op, p, ha, hfinish, hdecode, hword⟩ :=
    loads_of_labels ⟨0x3FFF8⟩ source (by decide) hsize.le 0
      ⟨1, "ldi", ["r1", "@end"], "ldi r1, @end ; forward"⟩ "r1" "@end" (.gpr 1) (by decide) rfl rfl
      rfl (by decide)
  rw [hlookup] at ha
  cases ha
  exact ⟨hsize, hlookup, op, p, hfinish, hdecode, hword⟩

end Session

end Asm32
