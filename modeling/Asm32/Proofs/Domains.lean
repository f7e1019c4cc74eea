import Asm32.Proofs.Requests

/-!
# What the groups take, and what they refuse

A request is refused for its mnemonic, for the shape of its operands, or for a constant that cannot
be loaded, and the mnemonic comes first.  Each of the three is said here without the encoders: a
group knows its mnemonics (`Group.Knows`), a mnemonic has a form (`Group.form`) that operands have
or not (`Form.Takes`), and a constant can be loaded when a short number moved left is congruent to
it (`Packed.Loadable`).  `Group.Answer` lists the four answers that a request can have, and every
group gives one of them (`Group.answer_encode`).

**Constants** (`Packed.pack?_exact`).  Packing gives, for exactly the constants that can be loaded,
the one packed form with the least shift.

**Requests** (`Group.encode_domain`).  A group gives a word for exactly the operands of the form of
a mnemonic that it knows, and the fields of an instruction that it makes always fill a word.
-/

namespace Asm32

namespace Packed

/-! ### Constants that can be loaded -/

/-- A constant in the range of a word, signed or unsigned, that is congruent modulo `2 ^ 32` to a
signed number of seventeen bits moved left by at most fifteen. -/
def Loadable (c : Int) : Prop :=
  (-2 ^ 31 ≤ c ∧ c < 2 ^ 32) ∧
    ∃ (v : Int) (s : Nat), (-2 ^ 16 ≤ v ∧ v < 2 ^ 16) ∧ s ≤ 15 ∧ v * 2 ^ s ≡ c [ZMOD 2 ^ 32]

theorem ofInt_eq_ofInt_iff {x y : Int} :
    UInt32.ofInt x = UInt32.ofInt y ↔ x ≡ y [ZMOD 2 ^ 32] := by
  rw [← UInt32.toNat_inj, ← Int.ofNat_inj, toNat_ofInt, toNat_ofInt]
  rfl

theorem toNat_eq_emod_iff {w : UInt32} {c : Int} :
    (w.toNat : Int) = c % 2 ^ 32 ↔ w = UInt32.ofInt c := by
  rw [← UInt32.toNat_inj, ← Int.ofNat_inj, toNat_ofInt]
  rfl

/-- Packing refuses no constant that can be loaded. -/
theorem isSome_pack?_iff {c : Int} : (pack? c).isSome ↔ Loadable c := by
  constructor
  · intro h
    obtain ⟨p, hp⟩ := Option.isSome_iff_exists.mp h
    obtain ⟨hc, hfits, hword, -⟩ := pack?_eq_some_iff.mp hp
    rw [unpack_eq p (Nat.lt_of_le_of_lt hfits.2 (by decide)), ofInt_eq_ofInt_iff] at hword
    exact ⟨⟨by omega, by omega⟩, p.signed, p.shift.toNat, p.short_signed, hfits.2, hword⟩
  · rintro ⟨⟨hlow, hhigh⟩, v, s, hv, hs, hcongr⟩
    have hfits : (ofShort v s).Fits := fits_ofShort hs
    have hword : (ofShort v s).unpack = UInt32.ofInt c := by
      rw [unpack_eq _ (Nat.lt_of_le_of_lt hfits.2 (by decide)), signed_ofShort hv,
        toNat_shift_ofShort hs, ofInt_eq_ofInt_iff]
      exact hcongr
    -- packing looks for the least shift, which may be smaller than `s`
    obtain ⟨q, hq, hsame, hleast⟩ := exists_least hfits
    have hpack : pack? c = some q :=
      pack?_eq_some_iff.mpr ⟨⟨by omega, by omega⟩, hq, hsame.trans hword, hleast⟩
    rw [hpack]
    rfl

theorem pack?_eq_none_iff {c : Int} : pack? c = none ↔ ¬ Loadable c := by
  rw [← isSome_pack?_iff, Option.not_isSome_iff_eq_none]

end Packed

/-! ### The forms of operands -/

namespace Form

/-- The numbers of registers that a form takes. -/
def counts : Form → List Nat
  | load       => []
  | binary     => [3]
  | complement => [1, 2]
  | test       => [1]
  | move _     => [2]
  | skip       => [0]

/-- The operands have the form: a register and a constant for a load, and else registers alone, as
many as the form takes. -/
def Takes : Form → List Operand → Prop
  | load, ops => ∃ dest c, ops = [.reg dest, .imm c]
  | f, ops    => ∃ rs : List Reg, ops = rs.map .reg ∧ rs.length ∈ f.counts

theorem takes_iff {f : Form} {ops : List Operand} (hf : f ≠ .load) :
    f.Takes ops ↔ ∃ rs, Instr.registers? ops = some rs ∧ rs.length ∈ f.counts := by
  cases f with
  | load => exact absurd rfl hf
  | _ => simp only [Takes, Instr.registers?_eq_some_iff]

end Form

namespace Group

/-- The form of a mnemonic of the group. -/
def form : Group → String → Form
  | .loadImmediate, _ => .load
  | .alu, "not"       => .complement
  | .alu, "tst"       => .test
  | .alu, "test"      => .test
  | .alu, _           => .binary
  | .moveCopy, "ldm"  => .move .ldm
  | .moveCopy, "stm"  => .move .stm
  | .moveCopy, _      => .move .mv
  | .condFlow, _      => .skip

/-- The group of loads takes any mnemonic, the others take their own. -/
def Knows (g : Group) (m : String) : Prop := g = .loadImmediate ∨ m ∈ g.mnemonics

variable {m : String} {ops : List Operand}

theorem knows_alu_iff : alu.Knows m ↔ (AluOp.ofMnemonic? m).isSome := by
  rw [Knows, or_iff_right Group.noConfusion]
  constructor
  · have hall : ∀ n ∈ alu.mnemonics, (AluOp.ofMnemonic? n).isSome := by decide
    exact hall m
  · intro h
    obtain ⟨op, hop⟩ := Option.isSome_iff_exists.mp h
    rcases AluOp.ofMnemonic?_eq_some_iff.mp hop with rfl | ⟨rfl, -⟩
    · cases op <;> simp [mnemonics, AluOp.mnemonic]
    · simp [mnemonics]

theorem knows_move_iff : moveCopy.Knows m ↔ (MoveOp.ofMnemonic? m).isSome := by
  rw [Knows, or_iff_right Group.noConfusion]
  constructor
  · have hall : ∀ n ∈ moveCopy.mnemonics, (MoveOp.ofMnemonic? n).isSome := by decide
    exact hall m
  · intro h
    obtain ⟨op, hop⟩ := Option.isSome_iff_exists.mp h
    obtain rfl := MoveOp.ofMnemonic?_eq_some_iff.mp hop
    cases op <;> simp [mnemonics, MoveOp.mnemonic]

theorem knows_skip_iff : condFlow.Knows m ↔ (Cond.ofMnemonic? m).isSome := by
  rw [Knows, or_iff_right Group.noConfusion]
  constructor
  · have hall : ∀ n ∈ condFlow.mnemonics, (Cond.ofMnemonic? n).isSome := by decide
    exact hall m
  · intro h
    obtain ⟨cond, hcond⟩ := Option.isSome_iff_exists.mp h
    exact List.mem_map_of_mem (f := Prod.fst) (Cond.ofMnemonic?_eq_some_iff.mp hcond)

theorem form_alu {op : AluOp} (h : AluOp.ofMnemonic? m = some op) :
    alu.form m = if op = .tst then .test else if op = .not then .complement else .binary := by
  rcases AluOp.ofMnemonic?_eq_some_iff.mp h with rfl | ⟨rfl, rfl⟩
  · cases op <;> rfl
  · rfl

theorem form_move {op : MoveOp} (h : MoveOp.ofMnemonic? m = some op) :
    moveCopy.form m = .move op := by
  obtain rfl := MoveOp.ofMnemonic?_eq_some_iff.mp h
  cases op <;> rfl

/-! ### Answers -/

/-- What a group answers to a request, and when. -/
inductive Answer {α : Type} (g : Group) (m : String) (ops : List Operand) : Except Fault α → Prop
  | done {a : α} (hm : g.Knows m) (ht : (g.form m).Takes ops)
      (hc : ∀ c, .imm c ∈ ops → Packed.Loadable c) : Answer g m ops (.ok a)
  | unknown (hm : ¬ g.Knows m) : Answer g m ops (.error (.unknownMnemonic m))
  | mismatch (hm : g.Knows m) (ht : ¬ (g.form m).Takes ops) :
      Answer g m ops (.error (.operandMismatch m (g.form m).usage))
  | unloadable {dest : Reg} {c : Int} (hg : g = .loadImmediate) (hops : ops = [.reg dest, .imm c])
      (hc : ¬ Packed.Loadable c) : Answer g m ops (.error (.unloadableConstant c))

section registers

variable {α : Type} {g : Group} {f : Form} (hm : g.Knows m) (hform : g.form m = f) (hf : f ≠ .load)
include hm hform hf

/-- Registers are never refused for a constant. -/
theorem Answer.of_registers {rs : List Reg} {a : α} (hr : Instr.registers? ops = some rs)
    (hlength : rs.length ∈ f.counts) : Answer g m ops (.ok a) := by
  subst hform
  refine .done hm ((Form.takes_iff hf).mpr ⟨rs, hr, hlength⟩) fun c hc => ?_
  rw [Instr.registers?_eq_some_iff.mp hr] at hc
  simp at hc

theorem Answer.of_mismatch (h : ∀ rs, Instr.registers? ops = some rs → rs.length ∉ f.counts) :
    Answer g m ops (.error (.operandMismatch m f.usage) : Except Fault α) := by
  subst hform
  refine .mismatch hm fun ht => ?_
  obtain ⟨rs, hr, hlength⟩ := (Form.takes_iff hf).mp ht
  exact h rs hr hlength

end registers

theorem answer_loadOf : Answer .loadImmediate m ops (Instr.loadOf m ops) := by
  rw [Instr.loadOf.eq_def]
  split
  · rename_i dest c
    cases hp : Packed.pack? c with
    | none => exact .unloadable rfl rfl (Packed.pack?_eq_none_iff.mp hp)
    | some p =>
        refine .done (.inl rfl) ⟨dest, c, rfl⟩ fun c' hc => ?_
        obtain rfl : c' = c := by simpa using hc
        exact Packed.isSome_pack?_iff.mp (Option.isSome_of_eq_some hp)
  · rename_i hops
    refine .mismatch (.inl rfl) ?_
    rintro ⟨dest, c, e⟩
    exact hops dest c e

theorem answer_aluOf : Answer .alu m ops (Instr.aluOf m ops) := by
  rw [Instr.aluOf]
  split
  case h_1 hop => exact .unknown (mt knows_alu_iff.mp (by simp [hop]))
  case h_2 hop =>
    have hm := knows_alu_iff.mpr (Option.isSome_of_eq_some hop)
    split
    case h_1 hr => exact .of_registers hm (form_alu hop) (by simp) hr (by simp [Form.counts])
    case h_2 hother =>
      refine .of_mismatch hm (form_alu hop) (by simp) fun rs hr hlength => ?_
      obtain ⟨src, rfl⟩ := List.length_eq_one_iff.mp (List.mem_singleton.mp hlength)
      exact hother src hr
  case h_3 hop =>
    have hm := knows_alu_iff.mpr (Option.isSome_of_eq_some hop)
    split
    case h_1 hr => exact .of_registers hm (form_alu hop) (by simp) hr (by simp [Form.counts])
    case h_2 hr => exact .of_registers hm (form_alu hop) (by simp) hr (by simp [Form.counts])
    case h_3 hone htwo =>
      refine .of_mismatch hm (form_alu hop) (by simp) fun rs hr hlength => ?_
      obtain h | h : rs.length = 1 ∨ rs.length = 2 := by simpa [Form.counts] using hlength
      · obtain ⟨r, rfl⟩ := List.length_eq_one_iff.mp h
        exact hone r hr
      · obtain ⟨dest, src, rfl⟩ := List.length_eq_two.mp h
        exact htwo dest src hr
  case h_4 op ht hn hop =>
    have hm := knows_alu_iff.mpr (Option.isSome_of_eq_some hop)
    have hform : alu.form m = .binary := by rw [form_alu hop, if_neg ht, if_neg hn]
    split
    case h_1 hr => exact .of_registers hm hform (by simp) hr (by simp [Form.counts])
    case h_2 hother =>
      refine .of_mismatch hm hform (by simp) fun rs hr hlength => ?_
      obtain ⟨dest, src0, src1, rfl⟩ := List.length_eq_three.mp (List.mem_singleton.mp hlength)
      exact hother dest src0 src1 hr

theorem answer_moveOf : Answer .moveCopy m ops (Instr.moveOf m ops) := by
  rw [Instr.moveOf]
  split
  case h_1 hop => exact .unknown (mt knows_move_iff.mp (by simp [hop]))
  case h_2 op hop =>
    have hm := knows_move_iff.mpr (Option.isSome_of_eq_some hop)
    split
    case h_1 hr => exact .of_registers hm (form_move hop) (by simp) hr (by simp [Form.counts])
    case h_2 hother =>
      refine .of_mismatch hm (form_move hop) (by simp) fun rs hr hlength => ?_
      obtain ⟨dest, src, rfl⟩ := List.length_eq_two.mp (List.mem_singleton.mp hlength)
      exact hother dest src hr

theorem answer_skipOf : Answer .condFlow m ops (Instr.skipOf m ops) := by
  have hform : condFlow.form m = .skip := rfl
  rw [Instr.skipOf]
  split
  case h_1 hcond => exact .unknown (mt knows_skip_iff.mp (by simp [hcond]))
  case h_2 cond hcond =>
    have hm := knows_skip_iff.mpr (Option.isSome_of_eq_some hcond)
    split
    case isTrue hempty =>
      obtain rfl := List.isEmpty_iff.mp hempty
      have hr : Instr.registers? [] = some [] := rfl
      exact .of_registers hm hform (by simp) hr (by simp [Form.counts])
    case isFalse hsome =>
      refine .of_mismatch hm hform (by simp) fun rs hr hlength => hsome ?_
      obtain rfl := List.length_eq_zero_iff.mp (List.mem_singleton.mp hlength)
      rw [Instr.registers?_eq_some_iff.mp hr]
      rfl

/-- **Answers.**  Every request to a group has one of the four answers. -/
theorem answer_encode (g : Group) (m : String) (ops : List Operand) :
    Answer g m ops (g.encode m ops) := by
  have hanswer : Answer g m ops (Instr.ofOperands g m ops) := by
    cases g with
    | loadImmediate => exact answer_loadOf
    | alu => exact answer_aluOf
    | moveCopy => exact answer_moveOf
    | condFlow => exact answer_skipOf
  cases h : Instr.ofOperands g m ops with
  | error f =>
      rw [h] at hanswer
      rw [encode_eq_error_iff.mpr h]
      cases hanswer with
      | unknown hm => exact .unknown hm
      | mismatch hm ht => exact .mismatch hm ht
      | unloadable hg hops hc => exact .unloadable hg hops hc
  | ok i =>
      -- the fields of an instruction that is asked for fill a word, so the writer refuses none
      have hi := Instr.ofOperands_eq_ok_iff.mp h
      obtain ⟨raw, hraw⟩ := hi.exists_word
      rw [h] at hanswer
      rw [encode_eq_ok_iff.mpr ⟨i, hi, hraw⟩]
      cases hanswer with
      | done hm ht hc => exact .done hm ht hc

/-- **Requests.**  No request makes a group write fields that are no word.  A group gives a word
exactly when it knows the mnemonic, the operands have its form, and a constant among them can be
loaded.  It refuses a mnemonic exactly when it does not know it, whatever the operands are; the
operands of a mnemonic that it knows exactly when they do not have its form; and a constant exactly
when it stands in its place in a load and cannot be loaded. -/
theorem encode_domain (g : Group) (m : String) (ops : List Operand) :
    (∀ e, g.encode m ops ≠ .error (.malformedWord e)) ∧
    ((∃ raw, g.encode m ops = .ok raw) ↔
      g.Knows m ∧ (g.form m).Takes ops ∧ ∀ c, .imm c ∈ ops → Packed.Loadable c) ∧
    (g.encode m ops = .error (.unknownMnemonic m) ↔ ¬ g.Knows m) ∧
    (g.encode m ops = .error (.operandMismatch m (g.form m).usage) ↔
      g.Knows m ∧ ¬ (g.form m).Takes ops) ∧
    ∀ c, g.encode m ops = .error (.unloadableConstant c) ↔
      g = .loadImmediate ∧ (∃ dest, ops = [.reg dest, .imm c]) ∧ ¬ Packed.Loadable c := by
  have hanswer := answer_encode g m ops
  generalize g.encode m ops = r at hanswer
  cases hanswer with
  | done hm ht hc =>
      refine ⟨by simp, iff_of_true ⟨_, rfl⟩ ⟨hm, ht, hc⟩, iff_of_false (by simp) (not_not_intro hm),
        iff_of_false (by simp) fun h => h.2 ht, fun c => iff_of_false (by simp) ?_⟩
      rintro ⟨-, ⟨dest, rfl⟩, hnot⟩
      exact hnot (hc c (by simp))
  | unknown hm =>
      exact ⟨by simp, iff_of_false (by simp) fun h => hm h.1, iff_of_true rfl hm,
        iff_of_false (by simp) fun h => hm h.1,
        fun c => iff_of_false (by simp) fun h => hm (.inl h.1)⟩
  | mismatch hm ht =>
      refine ⟨by simp, iff_of_false (by simp) fun h => ht h.2.1,
        iff_of_false (by simp) (not_not_intro hm), iff_of_true rfl ⟨hm, ht⟩,
        fun c => iff_of_false (by simp) ?_⟩
      rintro ⟨rfl, ⟨dest, rfl⟩, -⟩
      exact ht ⟨dest, c, rfl⟩
  | @unloadable dest c hg hops hc =>
      subst hg hops
      have hm : loadImmediate.Knows m := .inl rfl
      have ht : (loadImmediate.form m).Takes [.reg dest, .imm c] := ⟨dest, c, rfl⟩
      refine ⟨by simp, iff_of_false (by simp) fun h => hc (h.2.2 c (by simp)),
        iff_of_false (by simp) (not_not_intro hm), iff_of_false (by simp) fun h => h.2 ht,
        fun c' => ⟨fun h => ?_, ?_⟩⟩
      · cases h
        exact ⟨rfl, ⟨dest, rfl⟩, hc⟩
      · rintro ⟨-, ⟨dest', h⟩, -⟩
        cases h
        rfl

end Group

/-- **Constants.**  Packing succeeds exactly for the constants that can be loaded, and the load of
any other constant is refused for it.  The packed form fits its fields and unpacks to the constant
modulo `2 ^ 32`; of all forms that do so it is the only one with the least shift. -/
theorem Packed.pack?_exact (c : Int) :
    ((pack? c).isSome ↔ Loadable c) ∧
    (pack? c = none ↔ ∀ m dest,
      Group.loadImmediate.encode m [.reg dest, .imm c] = .error (.unloadableConstant c)) ∧
    ∀ p, pack? c = some p →
      p.value.toNat < 2 ^ 17 ∧ p.shift.toNat ≤ 15 ∧ (p.unpack.toNat : Int) = c % 2 ^ 32 ∧
      ∀ q : Packed, q.value.toNat < 2 ^ 17 → q.shift.toNat ≤ 15 →
        (q.unpack.toNat : Int) = c % 2 ^ 32 → p.shift ≤ q.shift ∧ (q.shift = p.shift → q = p) := by
  refine ⟨isSome_pack?_iff, ⟨fun hnone m dest => ?_, fun h => ?_⟩, fun p hp => ?_⟩
  · rw [Group.encode_eq_error_iff, Instr.ofOperands, Instr.loadOf, hnone]
  · have hanswer := Group.answer_encode .loadImmediate "ldi" [.reg .drop, .imm c]
    rw [h] at hanswer
    cases hanswer with
    | unloadable _ _ hc => exact pack?_eq_none_iff.mpr hc
  · obtain ⟨-, hfits, hword, hleast⟩ := pack?_eq_some_iff.mp hp
    refine ⟨hfits.1, hfits.2, toNat_eq_emod_iff.mpr hword, fun q hv hs hq => ?_⟩
    have hsame : q.unpack = p.unpack := (toNat_eq_emod_iff.mp hq).trans hword.symm
    exact ⟨hleast q ⟨hv, hs⟩ hsame, eq_of_shift_eq hfits ⟨hv, hs⟩ hsame⟩

end Asm32
