import Asm32.Proofs.Operands
import Asm32.Proofs.Registration
import Asm32.Proofs.Requests
import Asm32.Proofs.SourceText

/-!
# The text of an instruction is read back

The text of an instruction is its first spelling: its mnemonic and the spellings of its operands,
with gaps between them (`Instr.text_eq`).  Read as a line of source it is a statement with that
mnemonic and those operands (`Instr.read_text`), and the standard registry makes the word of the
instruction from it, whatever labels are declared (`Instr.dispatch_statement`).
-/

namespace Asm32
open Text

/-! ### Operands -/

/-- The name of a register, or a constant in hexadecimal. -/
def Operand.spelling : Operand → String
  | .reg r => r.name
  | .imm c => "0x" ++ Numeral.hex c.toNat

theorem Reg.toList_name_gpr (n : Gpr) : (Reg.gpr n).name.toList = 'r' :: Numeral.digits 10 n := by
  rw [Reg.name, String.toList_append, Numeral.toList_decimal]
  rfl

theorem Operand.toList_spelling_imm (c : Int) :
    (Operand.imm c).spelling.toList = '0' :: 'x' :: Numeral.digits 16 c.toNat := by
  rw [Operand.spelling, String.toList_append, Numeral.toList_hex]
  rfl

theorem Reg.isWord_name (r : Reg) : IsWord r.name.toList := by
  cases r with
  | gpr n =>
      have hdigits : IsWord (Numeral.digits 10 n) := isWord_digits (by decide) (by decide) n
      rw [Reg.toList_name_gpr]
      exact hdigits.cons rfl
  | pc | sp | flags | drop => exact ⟨by simp [Reg.name], by simp [Reg.name, isPlain]⟩

theorem Operand.isWord_spelling (o : Operand) : IsWord o.spelling.toList := by
  cases o with
  | reg r => exact r.isWord_name
  | imm c =>
      have hdigits : IsWord (Numeral.digits 16 c.toNat) := isWord_digits (by decide) (by decide) _
      rw [Operand.toList_spelling_imm]
      exact (hdigits.cons rfl).cons rfl

theorem Operand.read_name (symbols : SymbolTable) (r : Reg) :
    Operand.read symbols r.name = .ok (.resolved (.reg r)) := by
  cases r with
  | gpr n =>
      have hdigits : Numeral.Spells 10 (Numeral.digits 10 n) n :=
        Numeral.spells_digits (by decide) (by decide) n
      exact Operand.reading_iff.mp (.general (Reg.toList_name_gpr n) hdigits)
  -- the other names do not start with an `r`
  | pc | sp | flags | drop => rfl

theorem Operand.read_hex (symbols : SymbolTable) (w : UInt32) :
    Operand.read symbols (Operand.imm w.toNat).spelling = .ok (.resolved (.imm w.toNat)) := by
  have hnumeric : IsNumeric (Operand.imm w.toNat).spelling.toList :=
    ⟨'0', _, by decide, .inl (Operand.toList_spelling_imm w.toNat)⟩
  exact Operand.reading_iff.mp (.constant hnumeric (spellsConstant_hex w))

theorem Operand.readAll_spelling {symbols : SymbolTable} {ops : List Operand}
    (h : ∀ o ∈ ops, Operand.read symbols o.spelling = .ok (.resolved o)) :
    Operand.readAll symbols (ops.map Operand.spelling) = .ok (.resolved ops) := by
  rw [Operand.readAll_eq_resolved_iff, List.forall₂_map_left_iff]
  exact List.forall₂_same.mpr h

namespace Instr

theorem read_operand (symbols : SymbolTable) (i : Instr) :
    ∀ o ∈ i.operands, Operand.read symbols o.spelling = .ok (.resolved o) := by
  have hregs : ∀ rs : List Reg, ∀ o ∈ rs.map Operand.reg,
      Operand.read symbols o.spelling = .ok (.resolved o) := by
    intro rs o ho
    obtain ⟨r, -, rfl⟩ := List.mem_map.mp ho
    exact Operand.read_name symbols r
  cases i with
  | ldi dest p =>
      intro o ho
      rcases List.mem_cons.mp ho with rfl | ho
      · exact Operand.read_name symbols dest
      · obtain rfl := List.mem_singleton.mp ho
        exact Operand.read_hex symbols p.unpack
  | alu op dest src0 src1 =>
      cases op with
      | tst => exact hregs [src0]
      | _ =>
          cases src1 with
          | none => exact hregs [dest, src0]
          | some src1 => exact hregs [dest, src0, src1]
  | move op dest src => exact hregs [dest, src]
  | skip cond => exact hregs []

/-! ### The text -/

/-- A blank before the first word and a comma with a blank before the others. -/
def gaps : List (List Char) → List (List Char × List Char)
  | []      => []
  | v :: vs => ([' '], v) :: vs.map fun u => ([',', ' '], u)

theorem map_snd_gaps (vs : List (List Char)) : (gaps vs).map (·.2) = vs := by
  cases vs with
  | nil => rfl
  | cons v vs => simp [gaps, Function.comp_def]

theorem spaced_gaps {vs : List (List Char)} (h : ∀ v ∈ vs, IsWord v) : Spaced (gaps vs) := by
  have hblank : IsGap [' '] := ⟨by simp, by simp⟩
  have hcomma : IsGap [',', ' '] := ⟨by simp, by simp⟩
  cases vs with
  | nil => intro p hp; cases hp
  | cons v vs =>
      intro p hp
      rcases List.mem_cons.mp hp with rfl | hp
      · exact ⟨hblank, h v List.mem_cons_self⟩
      · obtain ⟨u, hu, rfl⟩ := List.mem_map.mp hp
        exact ⟨hcomma, h u (List.mem_cons_of_mem v hu)⟩

/-- The gaps and the spellings of an instruction's operands. -/
def spelledOperands (i : Instr) : List (List Char × List Char) :=
  gaps (i.operands.map fun o => o.spelling.toList)

theorem spaced_spelledOperands (i : Instr) : Spaced i.spelledOperands := by
  apply spaced_gaps
  intro v hv
  obtain ⟨o, -, rfl⟩ := List.mem_map.mp hv
  exact o.isWord_spelling

theorem text_eq (i : Instr) :
    i.text = String.ofList (joined i.mnemonic.toList i.spelledOperands) := by
  apply String.toList_inj.mp
  rw [String.toList_ofList]
  cases i with
  | ldi dest p => simp [text, mnemonic, spelledOperands, operands, gaps, joined, Operand.spelling]
  | alu op dest src0 src1 =>
      cases op <;> cases src1 <;>
        simp [text, mnemonic, spelledOperands, operands, gaps, joined, Operand.spelling,
          AluOp.mnemonic]
  | move op dest src =>
      simp [text, mnemonic, spelledOperands, operands, gaps, joined, Operand.spelling]
  | skip cond => rfl

theorem isWord_mnemonic {i : Instr} (hw : i.WellFormed) : IsWord i.mnemonic.toList := by
  cases i with
  | ldi dest p => exact ⟨by simp [mnemonic], by simp [mnemonic, isPlain]⟩
  | alu op dest src0 src1 =>
      cases op <;>
        exact ⟨by simp [mnemonic, AluOp.mnemonic], by simp [mnemonic, AluOp.mnemonic, isPlain]⟩
  | move op dest src =>
      cases op <;>
        exact ⟨by simp [mnemonic, MoveOp.mnemonic], by simp [mnemonic, MoveOp.mnemonic, isPlain]⟩
  | skip cond =>
      obtain ⟨m, hm⟩ := Option.isSome_iff_exists.mp hw
      have hall : ∀ q ∈ Cond.skips, IsWord q.1.toList := by
        intro q hq
        simp only [Cond.skips, List.mem_cons, List.not_mem_nil, or_false] at hq
        rcases hq with rfl | rfl | rfl | rfl | rfl | rfl <;>
          exact ⟨by simp, by simp [isPlain]⟩
      rw [mnemonic, hm]
      exact hall _ (Cond.mnemonic?_eq_some_iff.mp hm)

theorem isLine_text {i : Instr} (hw : i.WellFormed) : IsLine i.text.toList := by
  rw [text_eq, String.toList_ofList]
  exact isLine_joined (isWord_mnemonic hw) i.spaced_spelledOperands

/-- The statement that the text of an instruction spells. -/
def statement (i : Instr) (number : Nat) : Statement :=
  ⟨number, i.mnemonic, i.operands.map Operand.spelling, i.text⟩

/-- **Reading the text.** -/
theorem read_text {i : Instr} (hw : i.WellFormed) (number : Nat) :
    Line.read number i.text = .ok (.statement (i.statement number)) := by
  have hoperands : (i.spelledOperands.map fun p => String.ofList p.2) =
      i.operands.map Operand.spelling := by
    have hwords := map_snd_gaps (i.operands.map fun o => o.spelling.toList)
    calc i.spelledOperands.map (fun p => String.ofList p.2)
        = (i.spelledOperands.map (·.2)).map String.ofList := by rw [List.map_map]; rfl
      _ = i.operands.map Operand.spelling := by
          rw [spelledOperands, hwords, List.map_map]
          simp [Function.comp_def]
  have h := Line.read_joined (isWord_mnemonic hw) i.spaced_spelledOperands number
  rw [← text_eq, String.ofList_toList, hoperands] at h
  exact h

/-! ### The word -/

theorem mnemonic_mem {i : Instr} (hw : i.WellFormed) : i.mnemonic ∈ i.group.mnemonics := by
  cases i with
  | ldi dest p => exact List.mem_singleton.mpr rfl
  | alu op dest src0 src1 => cases op <;> simp [mnemonic, AluOp.mnemonic, group, Group.mnemonics]
  | move op dest src => cases op <;> simp [mnemonic, MoveOp.mnemonic, group, Group.mnemonics]
  | skip cond =>
      obtain ⟨m, hm⟩ := Option.isSome_iff_exists.mp hw
      have hall : ∀ q ∈ Cond.skips, q.1 ∈ Group.condFlow.mnemonics := by decide
      rw [mnemonic, hm]
      exact hall _ (Cond.mnemonic?_eq_some_iff.mp hm)

/-- **The word of the text.**  The standard registry makes the word of an instruction from the
statement that its text spells, whatever labels are declared. -/
theorem dispatch_statement {i : Instr} {raw : UInt32} (hw : i.WellFormed) (hc : i.Canonical)
    (hraw : i.encode = .ok raw) (symbols : SymbolTable) (number : Nat) :
    Registry.standard.dispatch symbols (i.statement number).mnemonic
      (i.statement number).operands = .ok (.resolved raw) := by
  have hlookup : Registry.standard.lookup i.mnemonic = some i.group.encoder :=
    Registry.lookup_standard_eq_some_iff.mpr ⟨i.group, mnemonic_mem hw, rfl⟩
  have hencode : i.group.encode i.mnemonic i.operands = .ok raw :=
    Group.encode_eq_ok_iff.mpr ⟨i, requested_first hw hc, hraw⟩
  have hread := Operand.readAll_spelling (read_operand symbols i)
  simp only [Registry.dispatch, statement, hlookup, hread, Group.encoder, hencode]
  rfl

end Instr

end Asm32
