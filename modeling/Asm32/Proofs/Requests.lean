import Asm32.Instr.Operands
import Asm32.Proofs.Decoding
import Asm32.Proofs.Packing

/-!
# Requests and the instructions they ask for

A request is a group, a mnemonic and operands.  `Instr.Requested` lists what the groups take, one
rule for each form of operands, and the instruction that each form stands for; a group gives a word
exactly for these (`Group.encode_eq_ok_iff`).

An instruction can be asked for exactly when it is well formed and the constant that it loads, if it
loads one, is packed with the least shift (`Instr.Canonical`).  Such an instruction has one request
of its own, its first spelling (`Instr.mnemonic` and `Instr.operands`); the other requests for it
differ from that one only by an alias (`Group.plain`).
-/

namespace Asm32

/-! ### Mnemonics -/

theorem AluOp.ofMnemonic?_eq_some_iff {m : String} {op : AluOp} :
    AluOp.ofMnemonic? m = some op ↔ m = op.mnemonic ∨ m = "test" ∧ op = .tst := by
  refine ⟨fun h => ?_, ?_⟩
  · rw [AluOp.ofMnemonic?] at h
    split at h
    · exact Or.inr ⟨‹_›, (Option.some.inj h).symm⟩
    · have hm := List.find?_some h
      exact Or.inl (beq_iff_eq.mp hm).symm
  · rintro (rfl | ⟨rfl, rfl⟩)
    · cases op <;> rfl
    · rfl

theorem MoveOp.ofMnemonic?_eq_some_iff {m : String} {op : MoveOp} :
    MoveOp.ofMnemonic? m = some op ↔ m = op.mnemonic := by
  refine ⟨fun h => ?_, ?_⟩
  · rw [MoveOp.ofMnemonic?] at h
    have hm := List.find?_some h
    exact (beq_iff_eq.mp hm).symm
  · rintro rfl
    cases op <;> rfl

theorem Cond.ofMnemonic?_eq_some_iff {m : String} {cond : Cond} :
    Cond.ofMnemonic? m = some cond ↔ (m, cond.bits) ∈ Cond.skips := by
  refine ⟨fun h => ?_, fun h => ?_⟩
  · obtain ⟨b, hb, rfl⟩ := Option.map_eq_some_iff.mp h
    obtain ⟨before, after, hl, -⟩ := List.lookup_eq_some_iff.mp hb
    rw [hl]
    exact List.mem_append_right before (List.mem_cons_self ..)
  · have hall : ∀ q ∈ Cond.skips, Cond.ofMnemonic? q.1 = some ⟨q.2⟩ := by decide
    exact hall _ h

theorem Cond.mnemonic?_eq_some_iff {m : String} {cond : Cond} :
    cond.mnemonic? = some m ↔ (m, cond.bits) ∈ Cond.skips := by
  refine ⟨fun h => ?_, fun h => ?_⟩
  · obtain ⟨q, hq, rfl⟩ := Option.map_eq_some_iff.mp h
    have hb := List.find?_some hq
    rw [← beq_iff_eq.mp hb]
    exact List.mem_of_find?_eq_some hq
  · have hall : ∀ q ∈ Cond.skips, Cond.mnemonic? ⟨q.2⟩ = some q.1 := by decide
    exact hall _ h

namespace Instr

/-! ### What the groups take -/

theorem registers?_eq_some_iff {ops : List Operand} {rs : List Reg} :
    registers? ops = some rs ↔ ops = rs.map .reg := by
  induction ops generalizing rs with
  | nil => cases rs <;> simp [registers?]
  | cons o ops ih =>
      have hcons : registers? (o :: ops) = some rs ↔
          ∃ r, o.reg? = some r ∧ ∃ rs', registers? ops = some rs' ∧ r :: rs' = rs := by
        simp [registers?, List.mapM_cons, Option.bind_eq_some_iff]
      have hreg : ∀ r, o.reg? = some r ↔ o = .reg r := by
        intro r
        cases o <;> simp [Operand.reg?]
      rw [hcons]
      constructor
      · rintro ⟨r, hr, rs', hrs, rfl⟩
        rw [(hreg r).mp hr, ih.mp hrs, List.map_cons]
      · intro h
        cases rs with
        | nil => cases h
        | cons r rs' =>
            obtain ⟨ho, hops⟩ := List.cons.inj h
            exact ⟨r, (hreg r).mpr ho, rs', ih.mpr hops, rfl⟩

/-- The instruction that a mnemonic and operands ask a group for. -/
inductive Requested : Group → String → List Operand → Instr → Prop
  /-- The group of loads does not look at the mnemonic.  The word that the packed constant unpacks
  to is the constant modulo `2 ^ 32`. -/
  | load {m : String} {dest : Reg} {c : Int} {p : Packed} (hp : Packed.pack? c = some p)
      (hw : p.unpack = UInt32.ofInt c) :
      Requested .loadImmediate m [.reg dest, .imm c] (ldi dest p)
  | binary {op : AluOp} {dest src0 src1 : Reg} (h : op.isUnary = false) :
      Requested .alu op.mnemonic [.reg dest, .reg src0, .reg src1] (alu op dest src0 (some src1))
  | complement {dest src : Reg} :
      Requested .alu "not" [.reg dest, .reg src] (alu .not dest src none)
  | complementInPlace {r : Reg} : Requested .alu "not" [.reg r] (alu .not r r none)
  | test {m : String} {src : Reg} (h : m = "tst" ∨ m = "test") :
      Requested .alu m [.reg src] (alu .tst .drop src none)
  | move {op : MoveOp} {dest src : Reg} :
      Requested .moveCopy op.mnemonic [.reg dest, .reg src] (move op dest src)
  | skip {m : String} {cond : Cond} (h : (m, cond.bits) ∈ Cond.skips) :
      Requested .condFlow m [] (skip cond)

theorem loadOf_eq_ok_iff {m : String} {ops : List Operand} {i : Instr} :
    loadOf m ops = .ok i ↔ Requested .loadImmediate m ops i := by
  refine ⟨fun h => ?_, ?_⟩
  · rw [loadOf.eq_def] at h
    split at h
    · rename_i dest c
      split at h
      · rename_i p hp
        obtain rfl := Except.ok.inj h
        exact .load hp (Packed.pack?_eq_some_iff.mp hp).2.2.1
      · cases h
    · cases h
  · rintro ⟨hp, -⟩
    rw [loadOf, hp]

theorem aluOf_eq_ok_iff {m : String} {ops : List Operand} {i : Instr} :
    aluOf m ops = .ok i ↔ Requested .alu m ops i := by
  refine ⟨fun h => ?_, fun h => ?_⟩
  · rw [aluOf] at h
    split at h
    case h_1 => cases h
    case h_2 hm =>
      split at h
      · obtain rfl := Except.ok.inj h
        obtain rfl := registers?_eq_some_iff.mp ‹_›
        rcases AluOp.ofMnemonic?_eq_some_iff.mp hm with hm | ⟨hm, -⟩
        · exact .test (Or.inl hm)
        · exact .test (Or.inr hm)
      · cases h
    case h_3 hm =>
      obtain rfl : m = "not" := by
        rcases AluOp.ofMnemonic?_eq_some_iff.mp hm with hm | ⟨-, hm⟩
        · exact hm
        · cases hm
      split at h
      · obtain rfl := Except.ok.inj h
        obtain rfl := registers?_eq_some_iff.mp ‹_›
        exact .complementInPlace
      · obtain rfl := Except.ok.inj h
        obtain rfl := registers?_eq_some_iff.mp ‹_›
        exact .complement
      · cases h
    case h_4 op ht hn hm =>
      obtain rfl : m = op.mnemonic := by
        rcases AluOp.ofMnemonic?_eq_some_iff.mp hm with hm | ⟨-, hm⟩
        · exact hm
        · exact absurd hm ht
      -- the two unary operations have been taken by the cases above
      have hu : op.isUnary = false := by
        cases op with
        | not => exact absurd rfl hn
        | tst => exact absurd rfl ht
        | _ => rfl
      split at h
      · obtain rfl := Except.ok.inj h
        obtain rfl := registers?_eq_some_iff.mp ‹_›
        exact .binary hu
      · cases h
  · cases h with
    | @binary op _ _ _ hu =>
        cases op with
        | not | tst => cases hu
        | _ => rfl
    | complement => rfl
    | complementInPlace => rfl
    | test h =>
        rcases h with rfl | rfl
        · rfl
        · rfl

theorem moveOf_eq_ok_iff {m : String} {ops : List Operand} {i : Instr} :
    moveOf m ops = .ok i ↔ Requested .moveCopy m ops i := by
  refine ⟨fun h => ?_, fun h => ?_⟩
  · rw [moveOf] at h
    split at h
    · cases h
    · obtain rfl := MoveOp.ofMnemonic?_eq_some_iff.mp ‹_›
      split at h
      · obtain rfl := Except.ok.inj h
        obtain rfl := registers?_eq_some_iff.mp ‹_›
        exact .move
      · cases h
  · cases h with
    | move =>
        rw [moveOf, MoveOp.ofMnemonic?_eq_some_iff.mpr rfl]
        rfl

theorem skipOf_eq_ok_iff {m : String} {ops : List Operand} {i : Instr} :
    skipOf m ops = .ok i ↔ Requested .condFlow m ops i := by
  refine ⟨fun h => ?_, fun h => ?_⟩
  · rw [skipOf] at h
    split at h
    · cases h
    · have hm := Cond.ofMnemonic?_eq_some_iff.mp ‹_›
      split at h
      · obtain rfl := Except.ok.inj h
        obtain rfl := List.isEmpty_iff.mp ‹_›
        exact .skip hm
      · cases h
  · cases h with
    | skip hm =>
        rw [skipOf, Cond.ofMnemonic?_eq_some_iff.mpr hm]
        rfl

theorem ofOperands_eq_ok_iff {g : Group} {m : String} {ops : List Operand} {i : Instr} :
    ofOperands g m ops = .ok i ↔ Requested g m ops i := by
  cases g with
  | loadImmediate => exact loadOf_eq_ok_iff
  | alu => exact aluOf_eq_ok_iff
  | moveCopy => exact moveOf_eq_ok_iff
  | condFlow => exact skipOf_eq_ok_iff

/-- A request asks for one instruction at most. -/
theorem Requested.unique {g : Group} {m : String} {ops : List Operand} {i j : Instr}
    (hi : Requested g m ops i) (hj : Requested g m ops j) : i = j := by
  have e := ofOperands_eq_ok_iff.mpr hi
  rw [ofOperands_eq_ok_iff.mpr hj] at e
  exact (Except.ok.inj e).symm

/-! ### The instructions that can be asked for -/

/-- The constant that the instruction loads, if it loads one, is packed with the least shift. -/
def Canonical (i : Instr) : Prop := ∀ dest p, i = ldi dest p → p.Fits ∧ p.Least

theorem Requested.group_eq {g : Group} {m : String} {ops : List Operand} {i : Instr}
    (h : Requested g m ops i) : i.group = g := by
  cases h <;> rfl

theorem Requested.wellFormed {g : Group} {m : String} {ops : List Operand} {i : Instr}
    (h : Requested g m ops i) : i.WellFormed := by
  cases h with
  | load | move => trivial
  | @binary op _ _ _ hu =>
      refine ⟨by rw [hu]; rfl, fun ht => ?_⟩
      rw [ht] at hu
      cases hu
  | complement | complementInPlace => exact ⟨rfl, fun ht => nomatch ht⟩
  | test => exact ⟨rfl, fun _ => rfl⟩
  | skip hm =>
      rw [WellFormed, Cond.mnemonic?_eq_some_iff.mpr hm]
      rfl

theorem Requested.canonical {g : Group} {m : String} {ops : List Operand} {i : Instr}
    (h : Requested g m ops i) : i.Canonical := by
  rintro dest p rfl
  cases h with
  | load hp _ =>
      obtain ⟨-, hfits, -, hleast⟩ := Packed.pack?_eq_some_iff.mp hp
      exact ⟨hfits, hleast⟩

/-- The fields of an instruction that is asked for fit their widths. -/
theorem Requested.fits {g : Group} {m : String} {ops : List Operand} {i : Instr}
    (h : Requested g m ops i) : ∀ f ∈ i.fields, f.Fits := by
  cases h with
  | @load _ dest c p hp _ =>
      obtain ⟨-, ⟨hv, hs⟩, -⟩ := Packed.pack?_eq_some_iff.mp hp
      simp only [fields, List.forall_mem_cons, Field.Fits]
      exact ⟨trivial, ⟨by decide, Nat.lt_succ_of_le hs⟩, ⟨by decide, hv⟩, trivial, by simp⟩
  | @binary op _ _ _ _ =>
      have hcode : op.code < 1 <<< 5 := by cases op <;> decide
      simp only [fields, List.forall_mem_cons, Field.Fits]
      exact ⟨trivial, ⟨by decide, hcode⟩, trivial, trivial, trivial, by simp⟩
  | complement | complementInPlace | test =>
      simp only [fields, List.forall_mem_cons, Field.Fits]
      exact ⟨trivial, ⟨by decide, by decide⟩, trivial, trivial, trivial, by simp⟩
  | @move op _ _ => cases op <;> simp [fields, Field.Fits, MoveOp.code, wordBits]
  | @skip m cond hm =>
      have hbits : ∀ q ∈ Cond.skips, q.2.toNat < 1 <<< 4 := by decide
      simp only [fields, List.forall_mem_cons, Field.Fits]
      exact ⟨trivial, ⟨by decide, hbits _ hm⟩, trivial, by simp⟩

/-- An instruction that is asked for has a word. -/
theorem Requested.exists_word {g : Group} {m : String} {ops : List Operand} {i : Instr}
    (h : Requested g m ops i) : ∃ raw, i.encode = .ok raw := by
  refine Bits.exists_word h.fits ?_
  cases h with
  | @move op _ _ => cases op <;> rfl
  | _ => rfl

/-! ### First spellings -/

/-- The first spelling of an instruction's mnemonic. -/
def mnemonic : Instr → String
  | ldi _ _      => "ldi"
  | alu op _ _ _ => op.mnemonic
  | move op _ _  => op.mnemonic
  | skip cond    => cond.mnemonic?.getD "s??"

/-- The first spelling of an instruction's operands. -/
def operands : Instr → List Operand
  | ldi dest p                  => [.reg dest, .imm p.unpack.toNat]
  | alu .tst _ src0 _           => [.reg src0]
  | alu _ dest src0 none        => [.reg dest, .reg src0]
  | alu _ dest src0 (some src1) => [.reg dest, .reg src0, .reg src1]
  | move _ dest src             => [.reg dest, .reg src]
  | skip _                      => []

/-- An instruction that can be asked for is asked for by its first spelling. -/
theorem requested_first {i : Instr} (hw : i.WellFormed) (hc : i.Canonical) :
    Requested i.group i.mnemonic i.operands i := by
  cases i with
  | ldi dest p =>
      -- the word that the pair unpacks to is packed as the same pair, since the shift is the least
      obtain ⟨hfits, hleast⟩ := hc dest p rfl
      have hp := (Packed.pack?_unpack_eq_some_iff hfits).mpr hleast
      exact .load hp (Packed.pack?_eq_some_iff.mp hp).2.2.1
  | alu op dest src0 src1 =>
      obtain ⟨hsrc, hdest⟩ := hw
      cases src1 with
      | some src1 =>
          have hu : op.isUnary = false := by simpa using hsrc
          have he : (alu op dest src0 (some src1)).operands =
              [.reg dest, .reg src0, .reg src1] := by
            cases op with
            | not | tst => cases hu
            | _ => rfl
          rw [he]
          exact .binary hu
      | none =>
          have hu : op.isUnary = true := by simpa using hsrc
          cases op with
          | not => exact .complement
          | tst =>
              obtain rfl := hdest rfl
              exact .test (Or.inl rfl)
          | _ => cases hu
  | move op dest src => exact .move
  | skip cond =>
      obtain ⟨m, hm⟩ := Option.isSome_iff_exists.mp hw
      have he : (skip cond).mnemonic = m := by rw [mnemonic, hm]; rfl
      rw [he]
      exact .skip (Cond.mnemonic?_eq_some_iff.mp hm)

end Instr

namespace Group
open Instr (Requested)

/-! ### Aliases -/

/-- A constant stands for its value modulo `2 ^ 32`. -/
def plainOperand : Operand → Operand
  | .reg r => .reg r
  | .imm c => .imm (UInt32.ofInt c).toNat

/-- The first spelling of a request: a load is `ldi`, `test` is `tst`, `not r` is `not r, r`, and a
constant is taken modulo `2 ^ 32`. -/
def plain (g : Group) (m : String) (ops : List Operand) : String × List Operand :=
  match g, m, ops with
  | .loadImmediate, _, ops => ("ldi", ops.map plainOperand)
  | .alu, "test", ops      => ("tst", ops)
  | .alu, "not", [o]       => ("not", [o, o])
  | _, m, ops              => (m, ops)

/-- The first spelling of a request is that of the instruction it asks for. -/
theorem plain_eq {g : Group} {m : String} {ops : List Operand} {i : Instr}
    (h : Requested g m ops i) : g.plain m ops = (i.mnemonic, i.operands) := by
  cases h with
  | load _ hw => rw [plain, Instr.mnemonic, Instr.operands, hw]; rfl
  | @binary op _ _ _ hu =>
      cases op with
      | not | tst => cases hu
      | _ => rfl
  | complement => rfl
  | complementInPlace => rfl
  | test h =>
      rcases h with rfl | rfl
      · rfl
      · rfl
  | move => rfl
  | @skip m cond hm =>
      rw [Instr.mnemonic, Cond.mnemonic?_eq_some_iff.mpr hm]
      rfl

/-- Two requests ask for the same instruction exactly when they have the same first spelling. -/
theorem eq_iff_plain_eq {g g' : Group} {m m' : String} {ops ops' : List Operand} {i i' : Instr}
    (h : Requested g m ops i) (h' : Requested g' m' ops' i') :
    i = i' ↔ g = g' ∧ g.plain m ops = g'.plain m' ops' := by
  rw [plain_eq h, plain_eq h', Prod.mk.injEq]
  constructor
  · rintro rfl
    exact ⟨h.group_eq.symm.trans h'.group_eq, rfl, rfl⟩
  · rintro ⟨rfl, hm, hops⟩
    -- the first spelling that the two share asks for both instructions
    have hi := Instr.requested_first h.wellFormed h.canonical
    have hi' := Instr.requested_first h'.wellFormed h'.canonical
    rw [← hm, ← hops, h'.group_eq, ← h.group_eq] at hi'
    exact hi.unique hi'

/-- A group gives a word exactly when it is asked for an instruction, and the word is the
instruction's. -/
theorem encode_eq_ok_iff {g : Group} {m : String} {ops : List Operand} {raw : UInt32} :
    g.encode m ops = .ok raw ↔ ∃ i, Requested g m ops i ∧ i.encode = .ok raw := by
  rw [Group.encode]
  refine ⟨fun h => ?_, ?_⟩
  · split at h
    · cases h
    · rename_i i hi
      refine ⟨i, Instr.ofOperands_eq_ok_iff.mp hi, ?_⟩
      cases hw : i.encode with
      | ok w =>
          rw [hw] at h
          obtain rfl := Except.ok.inj h
          rfl
      | error e =>
          rw [hw] at h
          cases h
  · rintro ⟨i, hi, hw⟩
    have e := Instr.ofOperands_eq_ok_iff.mpr hi
    simp only [e, hw]
    rfl

/-- A group refuses a request exactly when it asks for no instruction, with the same fault. -/
theorem encode_eq_error_iff {g : Group} {m : String} {ops : List Operand} {f : Fault} :
    g.encode m ops = .error f ↔ Instr.ofOperands g m ops = .error f := by
  cases hi : Instr.ofOperands g m ops with
  | error e => simp [Group.encode, hi]
  | ok i =>
      obtain ⟨raw, hw⟩ := (Instr.ofOperands_eq_ok_iff.mp hi).exists_word
      simp [Group.encode, hi, hw, Except.mapError]

end Group

end Asm32
