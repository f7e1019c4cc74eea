import Asm32.Instr.Decode
import Asm32.Proofs.Words

/-!
# Decoding inverts encoding

Each group has its own decoder, written apart from the fields that encode its instructions.  Both
are compared here through `Reads`: a decoder finds an instruction in a word exactly when the word
holds the fields of that instruction and the instruction has a shape that its group knows
(`Instr.WellFormed`).

**Decoding** (`Instr.decode?_eq_some_iff`).  A word holds the instruction `i` exactly when `i` is
well formed and the word is the word of `i`.
-/

namespace Asm32

/-! ### Codes -/

theorem Reg.ofCode?_eq_some_iff {c : Nat} {r : Reg} : Reg.ofCode? c = some r ↔ c = r.code := by
  refine ⟨fun h => ?_, ?_⟩
  · rw [Reg.ofCode?] at h
    split at h
    · obtain rfl := Option.some.inj h
      rfl
    · split at h <;> cases h <;> rfl
  · rintro rfl
    exact Reg.ofCode?_code r

theorem AluOp.ofCode?_eq_some_iff {c : Nat} {op : AluOp} :
    AluOp.ofCode? c = some op ↔ c = op.code := by
  refine ⟨fun h => ?_, ?_⟩
  · rw [AluOp.ofCode?] at h
    have hc := List.find?_some h
    exact (beq_iff_eq.mp hc).symm
  · rintro rfl
    exact AluOp.ofCode?_code op

theorem Group.ofCode?_eq_some_iff {c : Nat} {g : Group} :
    Group.ofCode? c = some g ↔ c = g.code := by
  refine ⟨fun h => ?_, ?_⟩
  · rw [Group.ofCode?] at h
    have hc := List.find?_some h
    exact (beq_iff_eq.mp hc).symm
  · rintro rfl
    exact Group.ofCode?_code g

theorem Group.ofWord?_eq_some_iff {raw : UInt32} {g : Group} :
    Group.ofWord? raw = some g ↔ bitsAt raw 0 groupBits = g.code :=
  Group.ofCode?_eq_some_iff

theorem bitsAt_lt (raw : UInt32) (start width : Nat) : bitsAt raw start width < 1 <<< width :=
  Nat.mod_lt _ (Bits.zero_lt_shift width)

namespace Instr

/-! ### The word of an instruction -/

/-- The instruction has a shape that its group knows: a second source exactly when the operation
takes one, the sink as the destination of `tst`, and a condition that a skip has. -/
def WellFormed : Instr → Prop
  | ldi _ _             => True
  | alu op dest _ src1  => src1.isSome = !op.isUnary ∧ (op = .tst → dest = .drop)
  | move _ _ _          => True
  | skip cond           => cond.mnemonic?.isSome

/-- A word is the word of an instruction exactly when it names the group and holds the fields. -/
theorem encode_eq_ok_iff {i : Instr} {raw : UInt32} :
    i.encode = .ok raw ↔ Group.ofWord? raw = some i.group ∧ Reads raw groupBits i.fields := by
  rw [encode, Group.written_iff_reads, Group.ofWord?_eq_some_iff]

/-! ### Where the fields lie -/

theorem reads_ldi_iff {raw : UInt32} {dest : Reg} {p : Packed} :
    Reads raw groupBits (ldi dest p).fields ↔
      bitsAt raw 5 1 = 0 ∧ bitsAt raw 6 4 = p.shift.toNat ∧ bitsAt raw 10 17 = p.value.toNat ∧
        bitsAt raw 27 5 = dest.code := by
  have hs := bitsAt_lt raw 6 4
  have hv := bitsAt_lt raw 10 17
  simp only [fields, Reads, Field.Fits, Field.width, Field.value, groupBits, packedBits,
    registerBits, wordBits]
  grind

theorem reads_alu_iff {raw : UInt32} {op : AluOp} {dest src0 : Reg} {src1 : Option Reg} :
    Reads raw groupBits (alu op dest src0 src1).fields ↔
      bitsAt raw 5 7 = 0 ∧ bitsAt raw 12 5 = op.code ∧
        bitsAt raw 17 5 = (src1.map Reg.code).getD 0 ∧ bitsAt raw 22 5 = src0.code ∧
        bitsAt raw 27 5 = dest.code := by
  have hop := bitsAt_lt raw 12 5
  cases src1 <;>
    simp only [fields, Reads, Field.Fits, Field.width, Field.value, groupBits, registerBits,
      wordBits, Option.map_none, Option.map_some, Option.getD_none, Option.getD_some] <;>
    grind

/-- The fields after the first ten bits of a move, by its code. -/
theorem reads_move_iff {raw : UInt32} {op : MoveOp} {dest src : Reg} :
    Reads raw groupBits (move op dest src).fields ↔
      bitsAt raw 5 10 = 0 ∧ bitsAt raw 15 2 = op.code ∧
        match op with
        | .mv  => bitsAt raw 17 5 = 0 ∧ bitsAt raw 27 5 = dest.code ∧ bitsAt raw 22 5 = src.code
        | .ldm => bitsAt raw 22 5 = 0 ∧ bitsAt raw 27 5 = dest.code ∧ bitsAt raw 17 5 = src.code
        | .stm => bitsAt raw 27 5 = 31 ∧ bitsAt raw 17 5 = dest.code ∧ bitsAt raw 22 5 = src.code
      := by
  cases op <;>
    simp only [fields, Reads, Field.Fits, Field.width, Field.value, groupBits, registerBits,
      wordBits, MoveOp.code] <;>
    grind

theorem reads_skip_iff {raw : UInt32} {cond : Cond} :
    Reads raw groupBits (skip cond).fields ↔
      bitsAt raw 5 18 = 0 ∧ bitsAt raw 23 4 = cond.bits.toNat ∧ bitsAt raw 27 5 = 31 := by
  have hc := bitsAt_lt raw 23 4
  simp only [fields, Reads, Field.Fits, Field.width, Field.value, groupBits, registerBits, wordBits]
  grind

/-! ### The decoders of the groups -/

theorem decodeLoad?_eq_some_iff {raw : UInt32} {i : Instr} :
    decodeLoad? raw = some i ↔
      i.group = .loadImmediate ∧ i.WellFormed ∧ Reads raw groupBits i.fields := by
  cases i with
  | ldi dest p =>
      obtain ⟨value, shift⟩ := p
      have hs : bitsAt raw 6 4 % 2 ^ 8 = bitsAt raw 6 4 :=
        Nat.mod_eq_of_lt (Nat.lt_trans (bitsAt_lt raw 6 4) (by decide))
      have hv : bitsAt raw 10 17 % 2 ^ 32 = bitsAt raw 10 17 :=
        Nat.mod_eq_of_lt (Nat.lt_trans (bitsAt_lt raw 10 17) (by decide))
      simp only [decodeLoad?, reads_ldi_iff, group, WellFormed, true_and, packedBits, registerBits,
        Option.bind_eq_bind, Option.bind_eq_some_iff, Option.guard_eq_some', Option.pure_def,
        Reg.ofCode?_eq_some_iff, Option.some.injEq, ldi.injEq, Packed.mk.injEq,
        UInt8.ofNat_eq_iff_mod_eq_toNat, UInt32.ofNat_eq_iff_mod_eq_toNat, hs, hv]
      constructor
      · rintro ⟨-, hz, _, hd, rfl, hv, hs⟩
        exact ⟨hz, hs, hv, hd⟩
      · rintro ⟨hz, hs, hv, hd⟩
        exact ⟨⟨⟩, hz, dest, hd, rfl, hv, hs⟩
  | alu op dest src0 src1 => simp [decodeLoad?, group, Option.bind_eq_some_iff]
  | move op dest src => simp [decodeLoad?, group, Option.bind_eq_some_iff]
  | skip cond => simp [decodeLoad?, group, Option.bind_eq_some_iff]

theorem decodeAlu?_eq_some_iff {raw : UInt32} {i : Instr} :
    decodeAlu? raw = some i ↔
      i.group = .alu ∧ i.WellFormed ∧ Reads raw groupBits i.fields := by
  simp only [decodeAlu?, Option.bind_eq_bind, Option.bind_eq_some_iff, Option.guard_eq_some',
    Option.pure_def, Reg.ofCode?_eq_some_iff, AluOp.ofCode?_eq_some_iff]
  constructor
  · rintro ⟨-, hz, op, hop, src0, h0, dest, hd, h⟩
    by_cases hu : op.isUnary = true
    · rw [if_pos hu] at h
      simp only [Option.bind_eq_some_iff, Option.guard_eq_some', Option.some.injEq] at h
      obtain ⟨-, ⟨h1, ht⟩, rfl⟩ := h
      exact ⟨rfl, ⟨by rw [hu]; rfl, ht⟩, reads_alu_iff.mpr ⟨hz, hop, h1, h0, hd⟩⟩
    · rw [if_neg hu] at h
      simp only [Option.bind_eq_some_iff, Reg.ofCode?_eq_some_iff, Option.some.injEq] at h
      obtain ⟨src1, h1, rfl⟩ := h
      have ht : op = .tst → dest = .drop := fun e => absurd (by rw [e]; rfl) hu
      exact ⟨rfl, ⟨by rw [Bool.not_eq_true _ |>.mp hu]; rfl, ht⟩,
        reads_alu_iff.mpr ⟨hz, hop, h1, h0, hd⟩⟩
  · rintro ⟨hg, hw, hr⟩
    cases i with
    | alu op dest src0 src1 =>
        obtain ⟨hz, hop, h1, h0, hd⟩ := reads_alu_iff.mp hr
        refine ⟨⟨⟩, hz, op, hop, src0, h0, dest, hd, ?_⟩
        cases src1 with
        | none =>
            have hu : op.isUnary = true := by simpa [WellFormed] using hw.1
            rw [if_pos hu]
            simp only [Option.bind_eq_some_iff, Option.guard_eq_some']
            exact ⟨⟨⟩, ⟨h1, hw.2⟩, trivial⟩
        | some src1 =>
            have hu : ¬ op.isUnary = true := by simpa [WellFormed] using hw.1
            rw [if_neg hu]
            simp only [Option.bind_eq_some_iff, Reg.ofCode?_eq_some_iff]
            exact ⟨src1, h1, rfl⟩
    | ldi _ _ | move _ _ _ | skip _ => cases hg

theorem decodeMove?_eq_some_iff {raw : UInt32} {i : Instr} :
    decodeMove? raw = some i ↔
      i.group = .moveCopy ∧ i.WellFormed ∧ Reads raw groupBits i.fields := by
  simp only [decodeMove?, Option.bind_eq_bind, Option.bind_eq_some_iff, Option.guard_eq_some',
    Option.pure_def]
  constructor
  · rintro ⟨-, hz, h⟩
    split at h
    case h_4 => cases h
    all_goals
      simp only [Option.bind_eq_some_iff, Option.guard_eq_some', Reg.ofCode?_eq_some_iff,
        Option.some.injEq] at h
      obtain ⟨-, hf, _, hd, _, hs, rfl⟩ := h
      exact ⟨rfl, trivial, reads_move_iff.mpr ⟨hz, ‹_›, hf, hd, hs⟩⟩
  · rintro ⟨hg, -, hr⟩
    cases i with
    | move op dest src =>
        obtain ⟨hz, hop, hf⟩ := reads_move_iff.mp hr
        refine ⟨⟨⟩, hz, ?_⟩
        cases op <;> obtain ⟨hf, hd, hs⟩ := hf <;> rw [hop] <;>
          simp only [MoveOp.code, Option.bind_eq_some_iff, Option.guard_eq_some',
            Reg.ofCode?_eq_some_iff] <;>
          exact ⟨⟨⟩, hf, dest, hd, src, hs, rfl⟩
    | ldi _ _ | alu _ _ _ _ | skip _ => cases hg

theorem decodeSkip?_eq_some_iff {raw : UInt32} {i : Instr} :
    decodeSkip? raw = some i ↔
      i.group = .condFlow ∧ i.WellFormed ∧ Reads raw groupBits i.fields := by
  simp only [decodeSkip?, Option.bind_eq_bind, Option.bind_eq_some_iff, Option.guard_eq_some',
    Option.pure_def, Option.some.injEq]
  have hb : bitsAt raw 23 4 % 2 ^ 8 = bitsAt raw 23 4 :=
    Nat.mod_eq_of_lt (Nat.lt_trans (bitsAt_lt raw 23 4) (by decide))
  constructor
  · rintro ⟨-, ⟨hz, ho⟩, -, hc, rfl⟩
    exact ⟨rfl, hc, reads_skip_iff.mpr ⟨hz, by rw [UInt8.toNat_ofNat', hb], ho⟩⟩
  · rintro ⟨hg, hw, hr⟩
    cases i with
    | skip cond =>
        obtain ⟨hz, hc, ho⟩ := reads_skip_iff.mp hr
        have e : (⟨UInt8.ofNat (bitsAt raw 23 4)⟩ : Cond) = cond := by
          rw [hc, UInt8.ofNat_toNat]
        rw [e]
        exact ⟨⟨⟩, ⟨hz, ho⟩, ⟨⟩, hw, rfl⟩
    | ldi _ _ | alu _ _ _ _ | move _ _ _ => cases hg

/-- **Decoding.**  A word holds an instruction exactly when the instruction is well formed and the
word is its word. -/
theorem decode?_eq_some_iff {raw : UInt32} {i : Instr} :
    decode? raw = some i ↔ i.WellFormed ∧ i.encode = .ok raw := by
  -- once the word names a group, only the instructions of that group come into question
  have hgroup : ∀ {g : Group}, Group.ofWord? raw = some g →
      (i.group = g ∧ i.WellFormed ∧ Reads raw groupBits i.fields ↔
        i.WellFormed ∧ i.encode = .ok raw) := by
    intro g hg
    rw [encode_eq_ok_iff, hg, Option.some.injEq]
    exact ⟨fun ⟨e, hw, hr⟩ => ⟨hw, e.symm, hr⟩, fun ⟨hw, e, hr⟩ => ⟨e.symm, hw, hr⟩⟩
  rw [decode?]
  cases hg : Group.ofWord? raw with
  | none =>
      refine ⟨fun h => ?_, ?_⟩
      · cases h
      · rintro ⟨-, h⟩
        rw [(encode_eq_ok_iff.mp h).1] at hg
        cases hg
  | some g =>
      rw [← hgroup hg]
      cases g with
      | loadImmediate => exact decodeLoad?_eq_some_iff
      | alu => exact decodeAlu?_eq_some_iff
      | moveCopy => exact decodeMove?_eq_some_iff
      | condFlow => exact decodeSkip?_eq_some_iff

end Instr

end Asm32
